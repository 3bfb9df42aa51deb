import BoundedCache.Proofs.Load.Draining

/-!
# Loads that wind down

A task that is still there has a reason to be: its load is pending, or it was cancelled and
the task has yet to hear of it.  A desk where this is so is `Engaged`.  So whoever polls a
task that was not cancelled may take its load to be the pending one of its key.

`Winds` is what happens to a desk that begins no load: loads leave the table, answers come
in, and nothing goes back, neither to a state that takes work nor to a table with more loads.
Everything that can happen at a desk is of this kind, but for a request.
-/

namespace BoundedCache

variable {K V ρ : Type}

namespace Coordinator

variable {c c' : Coordinator K ρ} {handle : LoadHandle K}

theorem isDown_mayDrain (c : Coordinator K ρ) :
    c.mayDrain.lifecycle.isDown = c.lifecycle.isDown := by
  rw [lifecycle_mayDrain]
  split
  · rename_i hdrains
    rw [hdrains.1]
    rfl
  · rfl

theorem nextId_mayDrain (c : Coordinator K ρ) : c.mayDrain.nextId = c.nextId := by
  rw [mayDrain_eq]

/-- A coordinator at rest has drained already. -/
theorem AtRest.mayDrain_eq (h : c.AtRest) : c.mayDrain = c := by
  rw [Coordinator.mayDrain_eq, lifecycle_mayDrain,
    if_neg fun hdrains => h.busy hdrains.1 hdrains.2]

variable [DecidableEq K]

/-- The load is pending, or it was cancelled. -/
def Engages (c : Coordinator K ρ) (handle : LoadHandle K) : Prop :=
  c.isCurrent handle.key handle.id = true ∨ c.isCancelled handle.id = true

/-- A load that ends otherwise than by its own number goes on or is cancelled. -/
theorem Engages.mono (h : c.Engages handle)
    (hcurrent : c.isCurrent handle.key handle.id = true → c'.Engages handle)
    (hcancelled : c.cancelled ⊆ c'.cancelled) : c'.Engages handle := by
  rcases h with hpending | hrecord
  · exact hcurrent hpending
  · rw [isCancelled, List.contains_iff_mem] at hrecord
    exact .inr (List.contains_iff_mem.mpr (hcancelled hrecord))

/-- A load is not concerned by the answer of another. -/
theorem Engages.complete (h : c.Engages handle) {key : K} {id : Nat}
    (hother : handle.key ≠ key ∨ handle.id ≠ id) (answer : ρ) :
    (c.complete key id answer).Engages handle := by
  refine h.mono (fun hcurrent => .inl ?_) (cancelled_complete c key id answer ▸ List.Subset.refl _)
  rcases c.complete_cases key id answer with ⟨-, heq⟩ | ⟨load, hload, rfl, heq⟩
  · rwa [heq]
  · have hkey : handle.key ≠ key := by
      rintro rfl
      rw [isCurrent_of_pending? hload, decide_eq_true_iff] at hcurrent
      exact hother.elim (fun hne => hne rfl) fun hne => hne hcurrent.symm
    rw [heq, isCurrent, pending?_mayDrain, pending?_resolve, if_neg hkey]
    exact hcurrent

/-- The load of a key that has none pending is of another key. -/
theorem key_ne_of_isCurrent {key : K} (hfree : c.pending? key = none)
    (hcurrent : c.isCurrent handle.key handle.id = true) : handle.key ≠ key := by
  rintro rfl
  rw [isCurrent, hfree] at hcurrent
  exact Bool.false_ne_true hcurrent

theorem Engages.begin (h : c.Engages handle) {key : K} (hfree : c.pending? key = none) :
    (c.begin key).Engages handle := by
  refine h.mono (fun hcurrent => .inl ?_) (List.Subset.refl _)
  rw [isCurrent, pending?_begin hfree, if_neg (key_ne_of_isCurrent hfree hcurrent)]
  exact hcurrent

theorem Engages.recount (h : c.Engages handle) (key : K) (count : Nat → Nat) :
    (c.recount key count).Engages handle := by
  unfold Engages
  rw [isCurrent_recount]
  exact h

theorem Engages.detach (h : c.Engages handle) (cancelledAnswer : ρ) (leaving : LoadHandle K) :
    (c.detach cancelledAnswer leaving).2.Engages handle := by
  rcases c.detach_cases cancelledAnswer leaving with
    ⟨-, heq⟩ | ⟨load, -, -, -, heq⟩ | ⟨load, hload, hid, -, heq⟩
  · rwa [heq]
  · rw [heq]
    exact h.recount _ _
  · refine h.mono (fun hcurrent => ?_) ?_
    · by_cases hsame : handle.id = load.id
      · -- the last waiter of this very load has gone, so it goes on record
        refine .inr ?_
        rw [heq, isCancelled, cancelled_mayDrain, List.contains_iff_mem, hsame]
        exact List.mem_cons_self
      · obtain ⟨pending, hpending, hpid⟩ := isCurrent_iff.mp hcurrent
        have hother : leaving.id ≠ pending.id := by
          rw [← hid, hpid]
          exact Ne.symm hsame
        have hspared := spares_detach hpending hother cancelledAnswer
        exact .inl ((isCurrent_congr hspared.pending?_eq _).trans hcurrent)
    · rw [cancelled_detach]
      exact List.subset_append_right _ _

theorem Engages.cancelAll (h : c.Engages handle) (cancelledAnswer : ρ) :
    (c.cancelAll cancelledAnswer).2.Engages handle := by
  refine h.mono (fun hcurrent => .inr ?_) ?_
  · obtain ⟨load, hload, hid⟩ := isCurrent_iff.mp hcurrent
    obtain ⟨before, after, hpending, -⟩ := List.lookup_eq_some_iff.mp hload
    have hmem : (handle.key, load) ∈ c.pending := by
      rw [hpending]
      exact List.mem_append_right _ List.mem_cons_self
    rw [isCancelled, cancelled_cancelAll, List.contains_iff_mem, cancelAll_eq]
    exact List.mem_append_left _ (List.mem_reverse.mpr (List.mem_map.mpr ⟨_, hmem, hid⟩))
  · rw [cancelled_cancelAll]
    exact List.subset_append_right _ _

/-! ### What ending a load leaves alone -/

theorem isDown_complete (c : Coordinator K ρ) (key : K) (id : Nat) (answer : ρ) :
    (c.complete key id answer).lifecycle.isDown = c.lifecycle.isDown := by
  rcases c.complete_cases key id answer with ⟨-, heq⟩ | ⟨load, -, -, heq⟩
  · rw [heq]
  · rw [heq, isDown_mayDrain]
    rfl

theorem nextId_complete (c : Coordinator K ρ) (key : K) (id : Nat) (answer : ρ) :
    (c.complete key id answer).nextId = c.nextId := by
  rcases c.complete_cases key id answer with ⟨-, heq⟩ | ⟨load, -, -, heq⟩
  · rw [heq]
  · rw [heq, nextId_mayDrain]
    rfl

theorem isDown_detach (c : Coordinator K ρ) (cancelledAnswer : ρ) (handle : LoadHandle K) :
    (c.detach cancelledAnswer handle).2.lifecycle.isDown = c.lifecycle.isDown := by
  rcases c.detach_cases cancelledAnswer handle with
    ⟨-, heq⟩ | ⟨load, -, -, -, heq⟩ | ⟨load, -, -, -, heq⟩
  · rw [heq]
  · rw [heq]
    rfl
  · rw [heq, isDown_mayDrain]
    rfl

theorem nextId_detach (c : Coordinator K ρ) (cancelledAnswer : ρ) (handle : LoadHandle K) :
    (c.detach cancelledAnswer handle).2.nextId = c.nextId := by
  rcases c.detach_cases cancelledAnswer handle with
    ⟨-, heq⟩ | ⟨load, -, -, -, heq⟩ | ⟨load, -, -, -, heq⟩
  · rw [heq]
  · rw [heq]
    rfl
  · rw [heq, nextId_mayDrain]
    rfl

end Coordinator

namespace LoadDesk

variable [DecidableEq K] {d d' d'' : LoadDesk K V ρ} {task : LoadTask K V}

/-- Every task is that of a pending load, or of one that was cancelled. -/
def Engaged (d : LoadDesk K V ρ) : Prop := ∀ task ∈ d.tasks, d.coordinator.Engages task.handle

theorem engaged_new (executor : Executor) : ({ executor := executor } : LoadDesk K V ρ).Engaged :=
  fun _ hmem => absurd hmem List.not_mem_nil

theorem Engaged.setTask (h : d.Engaged) (htask : d.coordinator.Engages task.handle) :
    (d.setTask task).Engaged := by
  intro other hother
  obtain ⟨old, hold, rfl⟩ := List.mem_map.mp hother
  split
  · exact htask
  · exact h old hold

theorem Engaged.finish (h : d.Engaged) (handle : LoadHandle K) (answer : ρ) :
    (d.finish handle answer).Engaged := by
  intro other hother
  obtain ⟨hmem, hid⟩ := List.mem_filter.mp hother
  exact (h other hmem).complete (.inr (of_decide_eq_true hid)) answer

theorem Engaged.openGate (h : d.Engaged) (key : K) : (d.openGate key).Engaged := by
  -- the table stays, so the tasks met on the way are as engaged as they were
  have hloop : ∀ (tasks : List (LoadTask K V)) (d : LoadDesk K V ρ), d.Engaged →
      (∀ task ∈ tasks, d.coordinator.Engages task.handle) →
      (tasks.foldl (passGate key) d).Engaged := by
    intro tasks
    induction tasks with
    | nil => exact fun d h _ => h
    | cons task tasks ih =>
        intro d h hengages
        obtain ⟨hfirst, hrest⟩ := List.forall_mem_cons.mp hengages
        rw [List.foldl_cons]
        rcases passGate_cases key d task with heq | ⟨phase, heq⟩
        · rw [heq]
          exact ih d h hrest
        · rw [heq, wake_eq]
          have hpassed : (d.setTask { task with phase := phase }).Engaged := h.setTask hfirst
          exact ih _ hpassed hrest
  rw [openGate_eq]
  exact hloop _ d h h

theorem Begins.engaged {ofError : CacheError → ρ} {launch : Launch}
    (hbegins : d.Begins task ofError launch d')
    (hfree : d.coordinator.pending? task.handle.key = none)
    (hid : task.handle.id = d.coordinator.nextId) (h : d.Engaged) : d'.Engaged := by
  cases hbegins with
  | hired launch executor =>
      intro other hmem
      rcases List.mem_append.mp hmem with hold | hnew
      · exact (h other hold).begin hfree
      · rw [List.mem_singleton.mp hnew]
        have hpending := (Coordinator.pending?_begin hfree task.handle.key).trans (if_pos rfl)
        exact .inl (Coordinator.isCurrent_iff.mpr ⟨_, hpending, hid.symm⟩)
  | turnedAway executor =>
      intro other hmem
      have hbegun := (h other hmem).begin hfree
      rcases h other hmem with hcurrent | hrecord
      · exact hbegun.complete (.inl (Coordinator.key_ne_of_isCurrent hfree hcurrent)) _
      · refine .inr ?_
        rw [Coordinator.isCancelled, Coordinator.cancelled_complete]
        exact hrecord

theorem Engaged.request (h : d.Engaged) (key : K) (attributes : Attributes) (forced : Bool)
    (program : Option (LoadProgram V)) (ofError : CacheError → ρ) :
    (d.request key attributes forced program ofError).2.Engaged := by
  rcases d.request_cases key attributes forced program ofError with
    ⟨load, -, heq⟩ | ⟨-, -, heq⟩ | ⟨hfree, -, launch, d', hbegins, heq⟩
  · rw [heq]
    exact fun task hmem => (h task hmem).recount _ _
  · rwa [heq]
  · rw [heq]
    exact hbegins.engaged hfree rfl h

theorem Engaged.detach (h : d.Engaged) (cancelledAnswer : ρ) (handle : LoadHandle K) :
    (d.detach cancelledAnswer handle).Engaged := by
  rw [detach_eq]
  exact fun task hmem => (h task hmem).detach cancelledAnswer handle

theorem Engaged.cancelAll (h : d.Engaged) (cancelledAnswer : ρ) :
    (d.cancelAll cancelledAnswer).Engaged := by
  rw [cancelAll_eq]
  exact fun task hmem => (h task hmem).cancelAll cancelledAnswer

/-! ## Winding down -/

/-- A desk comes to another without a load beginning: what was down or at rest is so again,
loads that were pending may have ended, and every task goes on having a load. -/
structure Winds (d d' : LoadDesk K V ρ) : Prop where
  leads : d.coordinator.Leads d'.coordinator
  isDown : d.coordinator.lifecycle.isDown = true → d'.coordinator.lifecycle.isDown = true
  proceeds : d.coordinator.Proceeds d'.coordinator
  engaged : d.Engaged → d'.Engaged
  nextId_eq : d'.coordinator.nextId = d.coordinator.nextId

theorem Winds.refl (d : LoadDesk K V ρ) : Winds d d := ⟨.refl _, id, .refl _, id, rfl⟩

theorem Winds.trans (h : Winds d d') (h' : Winds d' d'') : Winds d d'' :=
  ⟨h.leads.trans h'.leads, fun hdown => h'.isDown (h.isDown hdown), h.proceeds.trans h'.proceeds,
    fun hengaged => h'.engaged (h.engaged hengaged), h'.nextId_eq.trans h.nextId_eq⟩

theorem winds_inExecutor (d : LoadDesk K V ρ) (executor : Executor) :
    Winds d { d with executor := executor } := ⟨.refl _, id, .refl _, id, rfl⟩

theorem winds_setTask (hmem : task.handle ∈ d.tasks.map (·.handle)) :
    Winds d (d.setTask task) := by
  refine ⟨.refl _, id, .refl _, fun h => h.setTask ?_, rfl⟩
  obtain ⟨old, hold, hhandle⟩ := List.mem_map.mp hmem
  rw [← hhandle]
  exact h old hold

theorem winds_finish (d : LoadDesk K V ρ) (handle : LoadHandle K) (answer : ρ) :
    Winds d (d.finish handle answer) where
  leads := Coordinator.leads_complete _ _ _ _
  isDown hdown := (d.coordinator.isDown_complete handle.key handle.id answer).trans hdown
  proceeds := Coordinator.proceeds_complete _ _ _ _
  engaged h := h.finish handle answer
  nextId_eq := d.coordinator.nextId_complete handle.key handle.id answer

theorem winds_detach (d : LoadDesk K V ρ) (cancelledAnswer : ρ) (handle : LoadHandle K) :
    Winds d (d.detach cancelledAnswer handle) := by
  refine ⟨?_, fun hdown => ?_, ?_, fun h => h.detach cancelledAnswer handle, ?_⟩
  all_goals rw [detach_eq]
  · exact Coordinator.leads_detach _ _ _
  · exact (d.coordinator.isDown_detach cancelledAnswer handle).trans hdown
  · exact Coordinator.proceeds_detach _ _ _
  · exact d.coordinator.nextId_detach cancelledAnswer handle

theorem winds_cancelAll (d : LoadDesk K V ρ) (cancelledAnswer : ρ) :
    Winds d (d.cancelAll cancelledAnswer) := by
  have hcancel := (congrArg LoadDesk.coordinator (d.cancelAll_eq cancelledAnswer)).trans
    (congrArg Prod.snd (d.coordinator.cancelAll_eq cancelledAnswer))
  refine ⟨?_, fun hdown => ?_, ?_, fun h => h.cancelAll cancelledAnswer, ?_⟩
  · rw [hcancel]
    exact Coordinator.leads_mayDrain rfl fun _ => rfl
  · rw [hcancel]
    exact (Coordinator.isDown_mayDrain _).trans hdown
  · rw [cancelAll_eq]
    exact Coordinator.proceeds_cancelAll _ _
  · rw [hcancel]
    exact Coordinator.nextId_mayDrain _

theorem winds_openGate (d : LoadDesk K V ρ) (key : K) : Winds d (d.openGate key) := by
  have hsame := d.coordinator_openGate key
  refine ⟨?_, fun hdown => ?_, ?_, fun h => h.openGate key, ?_⟩
  · rw [hsame]
    exact .refl _
  · rwa [hsame]
  · rw [hsame]
    exact .refl _
  · rw [hsame]

/-- The jobs that nobody waits for do not matter to the loads. -/
theorem winds_withOrphans (d : LoadDesk K V ρ) (orphans : List (LoadTask K V)) :
    Winds d { d with orphans := orphans } :=
  ⟨.refl _, id, .refl _, fun h => h, rfl⟩

theorem winds_abandon (d : LoadDesk K V ρ) (id : Nat) (ofError : CacheError → ρ) :
    Winds d (d.abandon id ofError) := by
  rcases d.abandon_cases id ofError with heq | ⟨task, error, orphans, -, -, heq⟩
  · rw [heq]
    exact .refl d
  · rw [heq]
    exact (d.winds_finish _ _).trans (winds_withOrphans _ orphans)

end LoadDesk

end BoundedCache
