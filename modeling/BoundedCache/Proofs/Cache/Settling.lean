import BoundedCache.Proofs.Cache.Turning

/-!
# What a closed cache still does

Loads may end at the desk of a closed cache, and none begins.  When such a load finds its
value, that is written between calls of the hooks as it would have been before, but whatever
hooks ask for now comes to nothing.  So a closed cache settles, load by load.
-/

namespace BoundedCache

variable {K V : Type} [DecidableEq K]

namespace Cache

variable {c : Cache K V} {task : LoadTask K V}

/-! ## A change of a closed cache -/

namespace Closed

variable (h : c.Closed)
include h

/-- Whatever the hooks are, calling them only writes in the ledger. -/
theorem dispatch_eq (depth : Nat) (token : Token) (outcome : Option (Outcome K V)) :
    dispatch depth c token outcome =
      { c with ledger := c.ledger.callAll c.hooks.hooks token outcome c.store.keys } := by
  cases depth with
  | zero => exact foldl_callHook_eq (.inr fun _ _ => rfl)
  | succ depth =>
      refine foldl_callHook_eq (.inr fun l command => ?_)
      have hclosed : Closed { c with ledger := l } := h.of_desk rfl
      exact hclosed.obeyWith_eq _ command

theorem perform_eq {α : Type} (change : Change K V α) :
    c.perform change = ((change.apply c.store c.clock).answer,
      { c with
        store := (change.apply c.store c.clock).store
        ledger := c.ledger.bracket c.hooks.hooks ⟨change.operation, c.clock⟩ c.store.keys
          (change.apply c.store c.clock) }) := by
  refine performWith_eq change fun s l outcome => ?_
  have hclosed : Closed { c with store := s, ledger := l } := h.of_desk rfl
  exact hclosed.dispatch_eq nestingLimit _ outcome

/-! ## Turns of a load -/

section

variable [KeyText K]

/-- A value that is found is written, and then the load has its answer. -/
theorem settle_value (task : LoadTask K V) (value : V) :
    let t := (Change.write c.expiration task.handle.key value task.attributes .loader).apply
      c.store c.clock
    c.settle task (.value value) =
      { c with
        store := t.store
        ledger := (c.measure countLoad).ledger.bracket c.hooks.hooks ⟨.put, c.clock⟩ c.store.keys t
        desk := c.desk.finish task.handle (.ok (some t.answer.new)) } := by
  have hmeasured : (c.measure countLoad).Closed := h.of_desk rfl
  rw [settle, hmeasured.perform_eq]
  rfl

/-- A load that is still pending ends by its outcome. -/
theorem settles_settle {outcome : LoadOutcome V}
    (hcurrent : c.desk.coordinator.isCurrent task.handle.key task.handle.id = true)
    (hforeseen : c.desk.Foresees c.loader { task with phase := .answered outcome }) :
    ∃ merged, Settles c merged (c.settle task outcome) := by
  cases outcome with
  | nothing => exact ⟨[], settles_settle_of_none rfl⟩
  | error shown => exact ⟨[], settles_settle_of_none rfl⟩
  | panic shown => exact ⟨[], settles_settle_of_none rfl⟩
  | value value =>
      rw [h.settle_value task value]
      let t := (Change.write c.expiration task.handle.key value task.attributes .loader).apply
        c.store c.clock
      have hcounted : Ledger.Calls c.hooks.hooks.length c.ledger [] (c.measure countLoad).ledger :=
        .none rfl rfl rfl rfl
      have hwritten := Ledger.calls_bracket c.hooks.hooks ⟨.put, c.clock⟩ c.store.keys
        (c.measure countLoad).ledger t
      obtain ⟨old, hold, hhandle, hheads⟩ := hforeseen
      refine ⟨[⟨task.handle, value, task.attributes, c.clock, t.answer⟩],
        ⟨c.desk.winds_finish _ _, c.desk.pursues_finish _ _, rfl, rfl, rfl⟩, ⟨rfl, rfl⟩,
        hcounted.trans hwritten, List.forall_mem_singleton.mpr hcurrent, ?_, ?_, ?_,
        List.nodup_singleton _⟩
      · exact List.forall_mem_singleton.mpr ⟨old, hold, hhandle, hheads _ _ ⟨rfl, rfl⟩⟩
      · exact List.forall_mem_singleton.mpr (Coordinator.isCurrent_complete_self _ _ _ _)
      · exact List.forall_mem_singleton.mpr (Coordinator.mem_answers_complete hcurrent _)

/-- A turn of a load settles nothing but that load. -/
theorem settles_of_turn {ticket : Ticket} {c' : Cache K V} (hturn : Turn c ticket c') :
    ∃ merged, Settles c merged c' := by
  cases hturn with
  | idle hidle => exact ⟨[], (Frozen.refl c).settles⟩
  | aborted hmem hid hcancelled => exact ⟨[], (c.frozen_finish _ _).settles⟩
  | waits hgoes hid executor =>
      have hset := (frozen_setTask hgoes.foresees).trans (frozen_inExecutor _ executor)
      exact ⟨[], hgoes.settles.trans hset.settles⟩
  | ends hgoes hid =>
      have hclosed := hgoes.settles.closed h
      exact hgoes.settles.andThen (hclosed.settles_settle hgoes.isCurrent hgoes.foresees)
  | refused hgoes hid hblocking =>
      have hclosed := hgoes.settles.closed h
      refine hgoes.settles.andThen (hclosed.settles_settle hgoes.isCurrent ?_)
      exact hgoes.foresees.withoutValue nofun
  | late hstrays hid hlive => exact ⟨[], hstrays.settles _⟩

theorem settles_runTicket (ticket : Ticket) : ∃ merged, Settles c merged (c.runTicket ticket) :=
  h.settles_of_turn (turn_runTicket h.engaged ticket)

omit h in
theorem settles_runQueue (count : Nat) (h : c.Closed) :
    ∃ merged, Settles c merged (c.runQueue count) := by
  induction count generalizing c with
  | zero => exact ⟨[], (Frozen.refl c).settles⟩
  | succ count ih =>
      unfold runQueue
      split
      · exact ⟨[], (Frozen.refl c).settles⟩
      · rename_i ticket executor _
        have htaken := c.frozen_inExecutor executor
        have hclosed := htaken.closed h
        obtain ⟨merged, hturn⟩ := hclosed.settles_runTicket ticket
        exact htaken.settles.andThen (hturn.andThen (ih (hturn.closed hclosed)))

theorem settles_runIdle : ∃ merged, Settles c merged c.runIdle := settles_runQueue _ h

end

/-! ## Time -/

/-- The sweeper removes nothing and runs no more. -/
theorem frozen_sweep : Frozen c c.sweep ∧ c.sweep.sweeper = none := by
  unfold sweep
  split
  · rename_i hnone
    exact ⟨.refl c, Option.isNone_iff_eq_none.mp hnone⟩
  · rw [if_pos h.isDown]
    exact ⟨c.frozen_inTime c.clock c.elapsed none, rfl⟩

omit h in
theorem frozen_sweepUntil (time fuel : Nat) (h : c.Closed) : Frozen c (c.sweepUntil time fuel) := by
  induction fuel generalizing c with
  | zero => exact .refl c
  | succ fuel ih =>
      unfold sweepUntil
      split
      · exact .refl c
      · split
        · rename_i sweeper _ _
          have hdue := c.frozen_inTime c.clock sweeper.due
            (some { sweeper with due := sweeper.due + sweeper.period.nanos })
          have hswept := hdue.trans (frozen_sweep (hdue.closed h)).1
          exact hswept.trans (ih (hswept.closed h))
        · exact .refl c

variable [KeyText K]

theorem settles_sleep (d : Duration) : ∃ merged, Settles c merged (c.sleep d) := by
  obtain ⟨merged, hidle⟩ := h.settles_runIdle
  have hswept := frozen_sweepUntil (c.runIdle.elapsed + d.nanos) (d.nanos + 1) (hidle.closed h)
  exact hidle.andThen ⟨[], (hswept.trans (frozen_inTime _ _ _ _)).settles⟩

theorem settles_terminatesWithin (d : Duration) :
    ∃ merged, Settles c merged (c.terminatesWithin d).2 := by
  unfold terminatesWithin
  dsimp only
  split
  · obtain ⟨merged, hidle⟩ := h.settles_runIdle
    split
    · exact ⟨merged, hidle⟩
    · exact hidle.andThen ((hidle.closed h).settles_sleep d)
  · exact ⟨[], (Frozen.refl c).settles⟩

end Closed

end Cache

end BoundedCache
