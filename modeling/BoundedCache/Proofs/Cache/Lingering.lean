import BoundedCache.Proofs.Cache.Closed
import BoundedCache.Proofs.Cache.Perform
import BoundedCache.Proofs.Load.Heading

/-!
# What a cache does without beginning a load

Where no load begins, a cache only `Lingers`: loads may end at its desk.  Whatever goes no
further leaves the cache `Frozen`: the store, the ledger and the calls of the loader are what
they were.

Only a turn of a load that is still pending goes further, and writes a value between calls of
the hooks.  So a cache `Settles`, load by load, and each `Merge` is that of a load that was
pending, with the value that its task was heading for.
-/

namespace BoundedCache

/-! ## Values of loads -/

/-- The value of a load, written under the attributes at the time, and what came of it. -/
structure Merge (K V : Type) where
  handle : LoadHandle K
  value : V
  attributes : Attributes
  time : Nat
  written : Written K V

variable {K V : Type}

/-- The rounds in which hooks are called for a merge. -/
def Merge.rounds (m : Merge K V) : List (Option (Outcome K V)) :=
  [none, some (.put .loader m.written)]

variable [DecidableEq K]

/-- Writing the values one after the other leads from one store to the other. -/
def Merges (x : Expiration K V) : Store K V → List (Merge K V) → Store K V → Prop
  | s, [], s' => s' = s
  | s, m :: rest, s' =>
      let t := (Change.write x m.handle.key m.value m.attributes .loader).apply s m.time
      m.written = t.answer ∧ Merges x t.store rest s'

theorem Merges.append {x : Expiration K V} {s s' s'' : Store K V} {merged later : List (Merge K V)}
    (h : Merges x s merged s') (h' : Merges x s' later s'') : Merges x s (merged ++ later) s'' := by
  induction merged generalizing s with
  | nil =>
      obtain rfl : s' = s := h
      exact h'
  | cons m rest ih => exact ⟨h.1, ih h.2⟩

theorem Coordinator.mem_answers_complete {ρ : Type} {c : Coordinator K ρ} {key : K} {id : Nat}
    (hcurrent : c.isCurrent key id = true) (answer : ρ) :
    (id, answer) ∈ (c.complete key id answer).answers := by
  rw [complete_of_current hcurrent, answers_mayDrain]
  exact List.mem_cons_self

namespace Cache

variable {c c' c'' : Cache K V} {merged later : List (Merge K V)} {task : LoadTask K V}

/-! ## What goes on -/

/-- Loads may have ended, and what they lead to is settled by what there was before. -/
structure Lingers (c c' : Cache K V) : Prop where
  winds : c.desk.Winds c'.desk
  pursues : LoadDesk.Pursues c.loader c.desk c'.desk
  loader_eq : c'.loader = c.loader
  hooks_eq : c'.hooks = c.hooks
  expiration_eq : c'.expiration = c.expiration

theorem Lingers.refl (c : Cache K V) : Lingers c c := ⟨.refl _, .refl _ _, rfl, rfl, rfl⟩

theorem Lingers.trans (h : Lingers c c') (h' : Lingers c' c'') : Lingers c c'' where
  winds := h.winds.trans h'.winds
  pursues := h.pursues.trans (h.loader_eq ▸ h'.pursues)
  loader_eq := h'.loader_eq.trans h.loader_eq
  hooks_eq := h'.hooks_eq.trans h.hooks_eq
  expiration_eq := h'.expiration_eq.trans h.expiration_eq

theorem Lingers.closed (h : Lingers c c') (hclosed : c.Closed) : c'.Closed := hclosed.winds h.winds

/-- Nothing has changed but the desk, where loads may have ended. -/
structure Frozen (c c' : Cache K V) : Prop extends Lingers c c' where
  store_eq : c'.store = c.store
  ledger_eq : c'.ledger = c.ledger
  loaderCalls_eq : c'.loaderCalls = c.loaderCalls

theorem Frozen.refl (c : Cache K V) : Frozen c c := ⟨.refl c, rfl, rfl, rfl⟩

theorem Frozen.trans (h : Frozen c c') (h' : Frozen c' c'') : Frozen c c'' where
  toLingers := h.toLingers.trans h'.toLingers
  store_eq := h'.store_eq.trans h.store_eq
  ledger_eq := h'.ledger_eq.trans h.ledger_eq
  loaderCalls_eq := h'.loaderCalls_eq.trans h.loaderCalls_eq

theorem frozen_inDesk {d : LoadDesk K V (Answer K V)} (hwinds : c.desk.Winds d)
    (hpursues : LoadDesk.Pursues c.loader c.desk d) : Frozen c { c with desk := d } :=
  ⟨⟨hwinds, hpursues, rfl, rfl, rfl⟩, rfl, rfl, rfl⟩

theorem frozen_inExecutor (c : Cache K V) (executor : Executor) :
    Frozen c { c with desk := { c.desk with executor := executor } } :=
  frozen_inDesk (c.desk.winds_inExecutor executor)
    (LoadDesk.pursues_of_subset (List.Subset.refl _))

theorem frozen_setTask (h : c.desk.Foresees c.loader task) :
    Frozen c { c with desk := c.desk.setTask task } :=
  frozen_inDesk (LoadDesk.winds_setTask h.handle_mem)
    ((LoadDesk.Pursues.refl c.loader c.desk).setTask h)

theorem frozen_finish (c : Cache K V) (task : LoadTask K V) (answer : Answer K V) :
    Frozen c (c.finish task answer) :=
  frozen_inDesk (c.desk.winds_finish _ _) (c.desk.pursues_finish _ _)

theorem frozen_release (c : Cache K V) (future : Future K V) : Frozen c (c.release future) := by
  cases future with
  | ready answer => exact .refl c
  | load handle => exact frozen_inDesk (c.desk.winds_detach _ _) (c.desk.pursues_detach _ _)

theorem frozen_openGate (c : Cache K V) (key : K) : Frozen c (c.openGate key) :=
  frozen_inDesk (c.desk.winds_openGate key) (c.desk.pursues_openGate key)

theorem frozen_abandon (c : Cache K V) (id : Nat) : Frozen c (c.abandon id) :=
  frozen_inDesk (c.desk.winds_abandon id _) (c.desk.pursues_abandon id _)

/-- Time may pass, for the cache and on the executor. -/
theorem frozen_inTime (c : Cache K V) (clock elapsed : Nat) (sweeper : Option Sweeper) :
    Frozen c { c with clock := clock, elapsed := elapsed, sweeper := sweeper } :=
  ⟨⟨.refl _, .refl _ _, rfl, rfl, rfl⟩, rfl, rfl, rfl⟩

/-- Shutting down once more cancels what is pending, if anything is. -/
theorem Closed.frozen_shutDownNow (h : c.Closed) : Frozen c c.shutDownNow.2 := by
  have hsame := h.setLifecycle_eq
  unfold shutDownNow
  dsimp only
  rw [hsame]
  exact frozen_inDesk (c.desk.winds_cancelAll _) (c.desk.pursues_cancelAll _)

/-! ## Merges -/

/-- The cache comes to another as the loads of the merges, which were pending, find the values
that their tasks were heading for, and end with what was written. -/
structure Settles (c : Cache K V) (merged : List (Merge K V)) (c' : Cache K V) : Prop
    extends Lingers c c' where
  merges : Merges c.expiration c.store merged c'.store
  calls : Ledger.Calls c.hooks.hooks.length c.ledger (merged.flatMap Merge.rounds) c'.ledger
  pending : ∀ m ∈ merged, c.desk.coordinator.isCurrent m.handle.key m.handle.id = true
  found : ∀ m ∈ merged, ∃ task ∈ c.desk.tasks,
    task.handle = m.handle ∧ task.Heads c.loader m.attributes m.value
  ended : ∀ m ∈ merged, c'.desk.coordinator.isCurrent m.handle.key m.handle.id = false
  answered : ∀ m ∈ merged, (m.handle.id, .ok (some m.written.new)) ∈ c'.desk.coordinator.answers
  handles_nodup : (merged.map (·.handle)).Nodup

/-- Nothing was merged, and no hook had a call. -/
theorem Lingers.settles (h : Lingers c c') (hstore : c'.store = c.store)
    (hcalls : Ledger.Calls c.hooks.hooks.length c.ledger [] c'.ledger) : Settles c [] c' where
  toLingers := h
  merges := hstore
  calls := hcalls
  pending _ hmem := absurd hmem List.not_mem_nil
  found _ hmem := absurd hmem List.not_mem_nil
  ended _ hmem := absurd hmem List.not_mem_nil
  answered _ hmem := absurd hmem List.not_mem_nil
  handles_nodup := List.nodup_nil

theorem Frozen.settles (h : Frozen c c') : Settles c [] c' := by
  refine h.toLingers.settles h.store_eq ?_
  rw [h.ledger_eq]
  exact .refl c.ledger

theorem Settles.trans (h : Settles c merged c') (h' : Settles c' later c'') :
    Settles c (merged ++ later) c'' where
  toLingers := h.toLingers.trans h'.toLingers
  merges := h.merges.append (h.expiration_eq ▸ h'.merges)
  calls := by
    have hcalls := h'.calls
    rw [h.hooks_eq] at hcalls
    rw [List.flatMap_append]
    exact h.calls.trans hcalls
  pending := List.forall_mem_append.mpr
    ⟨h.pending, fun m hmem => h.winds.proceeds.current _ _ (h'.pending m hmem)⟩
  found := by
    refine List.forall_mem_append.mpr ⟨h.found, fun m hmem => ?_⟩
    obtain ⟨task, htask, hhandle, hheads⟩ := h'.found m hmem
    rw [h.loader_eq] at hheads
    obtain ⟨old, hold, hsame, hbefore⟩ := h.pursues task htask
    exact ⟨old, hold, hsame.trans hhandle, hbefore _ _ hheads⟩
  ended := by
    refine List.forall_mem_append.mpr ⟨fun m hmem => ?_, h'.ended⟩
    have hgone := h.ended m hmem
    refine Bool.eq_false_iff.mpr fun hback => ?_
    exact Bool.false_ne_true (hgone.symm.trans (h'.winds.proceeds.current _ _ hback))
  answered := List.forall_mem_append.mpr
    ⟨fun m hmem => h'.winds.proceeds.answers.subset (h.answered m hmem), h'.answered⟩
  handles_nodup := by
    rw [List.map_append]
    refine List.Nodup.append h.handles_nodup h'.handles_nodup ?_
    -- what has ended in the first part is not pending in the second
    intro handle hfirst hsecond
    obtain ⟨m, hmem, rfl⟩ := List.mem_map.mp hfirst
    obtain ⟨m', hmem', hsame⟩ := List.mem_map.mp hsecond
    have hpending := h'.pending m' hmem'
    rw [hsame, h.ended m hmem] at hpending
    exact Bool.false_ne_true hpending

/-- Then more may follow. -/
theorem Settles.andThen (h : Settles c merged c') (h' : ∃ later, Settles c' later c'') :
    ∃ all, Settles c all c'' := by
  obtain ⟨later, h'⟩ := h'
  exact ⟨_, h.trans h'⟩

end Cache

end BoundedCache
