import BoundedCache.Proofs.Cache.Calling
import BoundedCache.Proofs.Cache.Deeds
import BoundedCache.Proofs.Cache.Retelling

/-!
# The loads whose loader failed

A load is answered once (`Moves.numbered`), and the answers of a cache show which loads ended
with an error of their loader: these are the `failedLoads`.  Whatever else ends a load, that it
was cancelled, that it was turned away, or that its value was written, adds none (`Unled`), and
so the metrics count exactly them.

The count is kept on the side.  That no hook touches it, whatever it asks for, is seen by setting
it anew after every step: this is a `Rewording` that changes nothing.
-/

namespace BoundedCache

variable {K V : Type} [DecidableEq K]

/-! ## Every load is answered once -/

namespace Coordinator

variable {ρ : Type} {c : Coordinator K ρ} {key : K} {id : Nat} {cancelledAnswer : ρ}
  {handles started : List (LoadHandle K)}

theorem answers_complete (hcurrent : c.isCurrent key id = true) (answer : ρ) :
    (c.complete key id answer).answers = (id, answer) :: c.answers := by
  rw [complete_of_current hcurrent, answers_mayDrain]
  rfl

/-- A waiter may go of whom the coordinator knows nothing. -/
theorem Serves.leave (h : c.Serves cancelledAnswer handles started) (handle : LoadHandle K) :
    ∃ handles', (c.detach cancelledAnswer handle).2.Serves cancelledAnswer handles' started := by
  cases hcurrent : c.isCurrent handle.key handle.id with
  | false =>
      rw [detach_of_late hcurrent]
      exact ⟨handles, h⟩
  | true =>
      obtain ⟨load, hload, hid⟩ := isCurrent_iff.mp hcurrent
      obtain ⟨-, -, hwaiters, hpos⟩ := h.waited _ load hload
      rw [hid] at hwaiters
      have hheld : handle ∈ handles := List.count_pos_iff.mp (hwaiters ▸ hpos)
      exact ⟨_, (h.perm (List.perm_cons_erase hheld)).detach⟩

end Coordinator

namespace Cache

variable {c c' : Cache K V} {task : LoadTask K V}

/-- Loads are numbered, and a load that is pending has no answer yet. -/
def Numbered (c : Cache K V) : Prop :=
  ∃ handles started, c.desk.coordinator.Serves (.error .cancelled) handles started

theorem Numbered.answers_nodup (h : c.Numbered) :
    (c.desk.coordinator.answers.map Prod.fst).Nodup := by
  obtain ⟨handles, started, hserves⟩ := h
  exact hserves.answers_nodup

theorem SameLoads.numbered (h : SameLoads c c') (hc : c.Numbered) : c'.Numbered := by
  obtain ⟨state, hdesk⟩ := h
  obtain ⟨handles, started, hserves⟩ := hc
  refine ⟨handles, started, ?_⟩
  rw [hdesk]
  exact hserves.inState state

theorem Move.numbered (h : Move c c') (hc : c.Numbered) : c'.Numbered := by
  obtain ⟨handles, started, hserves⟩ := hc
  cases h with
  | run strict => exact (c.sameLoads_running strict).numbered ⟨handles, started, hserves⟩
  | shutDown => exact (steady_sameLoads.shutDown c).numbered ⟨handles, started, hserves⟩
  | perform change =>
      exact (steady_sameLoads.perform c change).numbered ⟨handles, started, hserves⟩
  | shutDownNow =>
      refine ⟨handles, started, ?_⟩
      show ((c.setLifecycle c.lifecycle.shutDown.2).desk.cancelAll _).coordinator.Serves _ _ _
      rw [LoadDesk.cancelAll_eq]
      exact (hserves.inState c.lifecycle.shutDown.2).cancelAll
  | request key attributes forced =>
      rcases c.desk.request_cases key attributes forced none (Except.error : _ → Answer K V) with
        ⟨load, hload, heq⟩ | ⟨-, -, heq⟩ | ⟨hfree, -, launch, desk, hbegins, heq⟩
      · rw [heq]
        exact ⟨_, _, hserves.join hload⟩
      · rw [heq]
        exact ⟨_, _, hserves⟩
      · rw [heq]
        cases hbegins with
        | hired launch executor => exact ⟨_, _, hserves.begin hfree⟩
        | turnedAway executor => exact ⟨_, _, (hserves.begin hfree).complete _ _ _⟩
  | setTask task hmem => exact ⟨_, _, hserves⟩
  | finish handle answer => exact ⟨_, _, hserves.complete _ _ _⟩
  | detach handle =>
      obtain ⟨handles', hleft⟩ := hserves.leave handle
      refine ⟨handles', started, ?_⟩
      rw [LoadDesk.detach_eq]
      exact hleft
  | openGate key =>
      refine ⟨handles, started, ?_⟩
      rw [LoadDesk.coordinator_openGate]
      exact hserves
  | setOrphans orphans => exact ⟨_, _, hserves⟩
  | schedule executor => exact ⟨_, _, hserves⟩
  | record hstore hhooks hdesk => exact ⟨_, _, hdesk ▸ hserves⟩

theorem Moves.numbered (h : Moves c c') : c.Numbered → c'.Numbered :=
  h.lift (R := fun c c' => c.Numbered → c'.Numbered) (fun _ => id)
    (fun h h' hc => h' (h hc)) Move.numbered

/-! ## Failed loads -/

/-- The number of the load, if this is the answer of one whose loader failed. -/
def failure? : Nat × Answer K V → Option Nat
  | (id, .error e) => if e.kind = .loader then some id else none
  | (_, .ok _) => none

/-- The loads whose loader failed, the latest first. -/
def failedLoads (c : Cache K V) : List Nat := c.desk.coordinator.answers.filterMap failure?

omit [DecidableEq K] in
theorem eq_of_failure? {entry : Nat × Answer K V} {id : Nat} (h : failure? entry = some id) :
    ∃ e : CacheError, entry = (id, .error e) ∧ e.kind = .loader := by
  obtain ⟨other, e | answer⟩ := entry
  · by_cases hkind : e.kind = .loader
    · rw [failure?, if_pos hkind, Option.some.injEq] at h
      exact ⟨e, by rw [h], hkind⟩
    · rw [failure?, if_neg hkind] at h
      exact nomatch h
  · exact nomatch h

omit [DecidableEq K] in
theorem failedLoads_sublist (c : Cache K V) :
    c.failedLoads.Sublist (c.desk.coordinator.answers.map Prod.fst) := by
  unfold failedLoads
  induction c.desk.coordinator.answers with
  | nil => exact .slnil
  | cons entry rest ih =>
      rw [List.filterMap_cons, List.map_cons]
      cases hentry : failure? entry with
      | none => exact ih.cons _
      | some id =>
          obtain ⟨e, rfl, -⟩ := eq_of_failure? hentry
          exact ih.cons_cons id

theorem Numbered.failedLoads_nodup (h : c.Numbered) : c.failedLoads.Nodup :=
  c.failedLoads_sublist.nodup h.answers_nodup

/-- A load failed if that is its answer. -/
theorem Numbered.mem_failedLoads_iff (h : c.Numbered) (handle : LoadHandle K) :
    handle.id ∈ c.failedLoads ↔
      ∃ e : CacheError, c.answer? (.load handle) = some (.error e) ∧ e.kind = .loader := by
  have hlookup := (Enumerates.lookup h.answers_nodup).mem_iff
  unfold failedLoads
  rw [List.mem_filterMap]
  constructor
  · rintro ⟨entry, hmem, hfailed⟩
    obtain ⟨e, rfl, hkind⟩ := eq_of_failure? hfailed
    exact ⟨e, (hlookup _ _).mp hmem, hkind⟩
  · rintro ⟨e, hanswer, hkind⟩
    exact ⟨(handle.id, .error e), (hlookup _ _).mpr hanswer, if_pos hkind⟩

omit [DecidableEq K] in
/-- Who is cancelled or turned away has not failed. -/
theorem Unled.failedLoads_eq (h : Unled c c') : c'.failedLoads = c.failedLoads := by
  obtain ⟨given, heq, hgiven⟩ := h
  have hnone : given.filterMap failure? = [] := by
    refine List.filterMap_eq_nil_iff.mpr fun entry hmem => ?_
    rcases hgiven entry.1 entry.2 hmem with hanswer | hanswer
    all_goals
      obtain ⟨id, answer⟩ := entry
      cases hanswer
      rfl
  rw [failedLoads, heq, List.filterMap_append, hnone]
  rfl

omit [DecidableEq K] in
theorem SameLoads.failedLoads_eq (h : SameLoads c c') : c'.failedLoads = c.failedLoads := by
  obtain ⟨state, hdesk⟩ := h
  rw [failedLoads, hdesk]
  rfl

end Cache

/-! ## Their count -/

omit [DecidableEq K] in
theorem Metrics.record_loadFailure (m : Metrics) (n : UInt64) (token : Token)
    (outcome : Outcome K V) :
    { m with loadFailure := n }.record token outcome =
      { m.record token outcome with loadFailure := n } := by
  calc { m with loadFailure := n }.record token outcome
      = (m.record token outcome).failing n m.hookFailure :=
        m.record_failing n m.hookFailure token outcome
    _ = { m.record token outcome with loadFailure := n } := by
        rw [← (m.record_keeps token outcome).2]
        rfl

namespace Ledger

/-- The ledger with another count of failed loads. -/
def counting (n : UInt64) (l : Ledger K V) : Ledger K V :=
  { l with metrics := { l.metrics with loadFailure := n } }

omit [DecidableEq K] in
theorem rewrites_counting (n : UInt64) :
    Rewrites (counting n : Ledger K V → Ledger K V) where
  callOf_eq _ _ _ _ := rfl
  made_eq _ := rfl
  called_eq _ _ _ _ := rfl
  recorded_eq l token outcome := by
    unfold recorded counting
    dsimp only
    rw [l.metrics.record_loadFailure n token outcome]
  noteCalls_eq _ _ := rfl
  report_eq _ _ _ failure := by cases failure <;> rfl

end Ledger

/-- The same hooks, and a count of failures that is set again and again. -/
def Rewording.counting (K V : Type) [DecidableEq K] (n : UInt64) : Rewording K V :=
  .rewriting (fun _ => Ledger.counting n) (fun _ => Ledger.rewrites_counting n)
    (fun _ _ _ => rfl) fun _ _ _ => rfl

namespace Cache

variable {c c' : Cache K V} {task : LoadTask K V}

/-- The count of failures that a cache shows it keeps. -/
theorem cache_counting (c : Cache K V) :
    (Rewording.counting K V c.ledger.metrics.loadFailure).cache c = c := by
  unfold Rewording.cache
  congr 1
  exact congrArg HookChain.mk (List.map_id _)

theorem perform_loadFailure {α : Type} (c : Cache K V) (change : Change K V α) :
    (c.perform change).2.ledger.metrics.loadFailure = c.ledger.metrics.loadFailure := by
  let w : Rewording K V := .counting K V c.ledger.metrics.loadFailure
  have hrespects : w.Respects change := fun _ _ _ _ => rfl
  have hsame := perform_retold (c := c) hrespects
  rw [cache_counting] at hsame
  exact congrArg (fun answer => answer.2.ledger.metrics.loadFailure) hsame

/-- The metrics count the loads that failed. -/
def CountsFailures (c : Cache K V) : Prop :=
  c.ledger.metrics.loadFailure = c.failedLoads.length.toUInt64

theorem finish_failedLoads [KeyText K]
    (hcurrent : c.desk.coordinator.isCurrent task.handle.key task.handle.id = true)
    (answer : Answer K V) : (c.finish task answer).failedLoads =
      (failure? (task.handle.id, answer)).toList ++ c.failedLoads := by
  show (c.desk.coordinator.complete _ _ answer).answers.filterMap failure? = _
  rw [Coordinator.answers_complete hcurrent, List.filterMap_cons]
  cases failure? (task.handle.id, answer) <;> rfl

/-- A load that ends by what its loader has come to has failed if that is an error, and is counted
then. -/
theorem settle_failedLoads [KeyText K] (c : Cache K V) (task : LoadTask K V)
    (outcome : LoadOutcome V)
    (hcurrent : c.desk.coordinator.isCurrent task.handle.key task.handle.id = true) :
    (∃ shown, outcome = .error shown ∧
        (c.settle task outcome).failedLoads = task.handle.id :: c.failedLoads ∧
        (c.settle task outcome).ledger.metrics.loadFailure = c.ledger.metrics.loadFailure + 1) ∨
      (∀ shown, outcome ≠ .error shown) ∧
        (c.settle task outcome).failedLoads = c.failedLoads ∧
        (c.settle task outcome).ledger.metrics.loadFailure = c.ledger.metrics.loadFailure := by
  cases outcome with
  | nothing => exact .inr ⟨nofun, finish_failedLoads hcurrent _, rfl⟩
  | panic shown => exact .inr ⟨nofun, finish_failedLoads hcurrent _, rfl⟩
  | error shown => exact .inl ⟨shown, rfl, finish_failedLoads hcurrent _, rfl⟩
  | value value =>
      -- the value is written first, and the load is still pending then
      rw [settle_value_eq]
      generalize Change.write c.expiration task.handle.key value task.attributes .loader = change
      have hcount := (c.measure countLoad).perform_loadFailure change
      have hsame := steady_sameLoads.perform (c.measure countLoad) change
      generalize (c.measure countLoad).perform change = write at hcount hsame
      have hthere : write.2.desk.coordinator.isCurrent task.handle.key task.handle.id = true := by
        obtain ⟨state, hdesk⟩ := hsame
        rw [hdesk]
        exact hcurrent
      refine .inr ⟨nofun, ?_, hcount⟩
      rw [finish_failedLoads hthere, hsame.failedLoads_eq]
      rfl

theorem Deed.countsFailures [KeyText K] (h : Deed c c') (hc : c.CountsFailures) :
    c'.CountsFailures := by
  unfold CountsFailures at hc ⊢
  cases h with
  | run strict =>
      rw [running_ledger, (c.sameLoads_running strict).failedLoads_eq, hc]
  | shutDown =>
      rw [(steady_sameLoads.shutDown c).failedLoads_eq]
      exact hc
  | perform change =>
      rw [perform_loadFailure, (steady_sameLoads.perform c change).failedLoads_eq, hc]
  | callLoader loader task => exact hc
  | resume key => exact hc
  | settle task outcome hcurrent =>
      rcases c.settle_failedLoads task outcome hcurrent with
        ⟨shown, -, hfailed, hcount⟩ | ⟨-, hfailed, hcount⟩
      · rw [hfailed, hcount, hc, List.length_cons]
        exact (UInt64.ofNat_add _ _).symm
      · rw [hfailed, hcount, hc]
  | tend hunled hstore hledger hhooks => rw [hledger, hunled.failedLoads_eq, hc]

end Cache

end BoundedCache
