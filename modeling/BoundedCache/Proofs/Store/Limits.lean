import BoundedCache.Proofs.Store.Consistency

/-!
# The limits hold after every operation

A policy that yields names a victim as long as there is an entry.  So the loop that
evicts until the limits hold can stop for want of a victim only when the store is empty,
and then nothing exceeds anything; every other step removes an entry.

The loops are bounded in their definitions.  `EvictRun`, `TrimRun` and `PutRun` describe
the same loops without a bound: a derivation is a finite run of the loop that ends by
its own condition.  Each loop of a store that agrees with its policy has such a run, with
the result that the definitions give.
-/

namespace BoundedCache.Store

variable {K V : Type} {s t : Store K V} {p : Policy K}

/-- The store holds no more than its limits allow. -/
structure Within (s : Store K V) : Prop where
  size_le : s.size ≤ s.maxEntries
  volume_le : s.volume ≤ s.maxVolume

theorem exceeds_eq_false {maxEntries maxVolume : Nat} :
    s.exceeds maxEntries maxVolume = false ↔ s.size ≤ maxEntries ∧ s.volume ≤ maxVolume := by
  simp only [exceeds, Bool.or_eq_false_iff, decide_eq_false_iff_not, Nat.not_lt]

variable [DecidableEq K]

/-! ## Runs of the loops -/

/-- Asking the policy for victims until one of them has an entry, or there is none. -/
inductive EvictRun : Store K V → Option (Entry K V) → Store K V → Prop where
  | exhausted {s : Store K V} {policy : Policy K} :
      s.policy.evict = (none, policy) → EvictRun s none { s with policy := policy }
  | found {s : Store K V} {key : K} {policy : Policy K} {slot : Slot K V} :
      s.policy.evict = (some key, policy) → s.slot? key = some slot →
      EvictRun s (some slot.entry)
        { s with
          slots := without s.slots key
          policy := policy
          volume := s.volume - slot.entry.size }
  | unknown {s t : Store K V} {key : K} {policy : Policy K} {victim : Option (Entry K V)} :
      s.policy.evict = (some key, policy) → s.slot? key = none →
      EvictRun { s with policy := policy } victim t → EvictRun s victim t

/-- Evicting while the store exceeds the limits and there are victims. -/
inductive TrimRun (maxEntries maxVolume : Nat) :
    Store K V → List (Entry K V) → Store K V → Prop where
  | within {s : Store K V} :
      s.exceeds maxEntries maxVolume = false → TrimRun maxEntries maxVolume s [] s
  | exhausted {s t : Store K V} :
      s.exceeds maxEntries maxVolume = true → EvictRun s none t →
      TrimRun maxEntries maxVolume s [] t
  | evicted {s t u : Store K V} {e : Entry K V} {rest : List (Entry K V)} :
      s.exceeds maxEntries maxVolume = true → EvictRun s (some e) t →
      TrimRun maxEntries maxVolume t rest u → TrimRun maxEntries maxVolume s (e :: rest) u

/-- Writing an entry, with the loops that make room before and after. -/
inductive PutRun (s : Store K V) (key : K) (value : V) (attributes : Attributes)
    (expires : Option Nat) (now : Nat) (recordAccess : Bool) :
    Written K V → Store K V → Prop where
  | oversized :
      s.admits attributes.size = false →
      PutRun s key value attributes expires now recordAccess
        (s.putOversized key value attributes expires now).1
        (s.putOversized key value attributes expires now).2
  | present {slot : Slot K V} {evicted : List (Entry K V)} {t : Store K V} :
      s.admits attributes.size = true → s.slot? key = some slot →
      TrimRun s.maxEntries s.maxVolume
        (s.putPresent slot value attributes expires now recordAccess).2 evicted t →
      PutRun s key value attributes expires now recordAccess
        ⟨some slot.entry, (s.putPresent slot value attributes expires now recordAccess).1,
          evicted⟩ t
  | absent {first later : List (Entry K V)} {room t : Store K V} :
      s.admits attributes.size = true → s.slot? key = none →
      TrimRun (s.maxEntries - 1) (s.maxVolume - attributes.size) s first room →
      TrimRun s.maxEntries s.maxVolume
        (room.appended (Entry.new key value attributes expires now)) later t →
      PutRun s key value attributes expires now recordAccess
        ⟨none, Entry.new key value attributes expires now, first ++ later⟩ t

theorem Agrees.evictRun (h : s.Agrees) : EvictRun s s.evictOne.1 s.evictOne.2 := by
  obtain ⟨hyields, -, -⟩ := h.sound.evict
  rcases hanswer : s.policy.evict with ⟨victim, policy⟩
  rw [hanswer] at hyields
  rw [Store.evictOne, Store.evictLoop, hanswer]
  cases victim with
  | none => exact .exhausted hanswer
  | some key =>
      obtain ⟨i, hi, -⟩ := hyields.of_some
      obtain ⟨slot, hmem, -, rfl⟩ := h.exists_slot hi
      have hslot : s.slot? slot.entry.key = some slot := (slot?_eq_some h).mpr ⟨hmem, rfl⟩
      simp only [hslot]
      exact .found hanswer hslot

/-- As many steps as there are entries, and one more to see that they suffice, are
always enough. -/
theorem Agrees.trimLoop_run (h : s.Agrees) (maxEntries maxVolume : Nat) {fuel : Nat}
    (hfuel : s.size < fuel) :
    TrimRun maxEntries maxVolume s (Store.trimLoop maxEntries maxVolume fuel s).1
      (Store.trimLoop maxEntries maxVolume fuel s).2 := by
  induction fuel generalizing s with
  | zero => exact absurd hfuel (Nat.not_lt_zero _)
  | succ fuel ih =>
      rw [Store.trimLoop]
      by_cases hexceeds : s.exceeds maxEntries maxVolume = true
      · have hrun := h.evictRun
        obtain ⟨hsheds, -⟩ := h.evictOne
        rw [if_pos hexceeds]
        rcases hone : s.evictOne with ⟨victim, t⟩
        rw [hone] at hrun hsheds
        cases victim with
        | none => exact .exhausted hexceeds hrun
        | some e =>
            -- the victim is one entry less, so the fuel still suffices
            have hsize := hsheds.size_eq
            simp only [Option.toList_some, List.length_cons, List.length_nil] at hsize
            exact .evicted hexceeds hrun (ih hsheds.agrees (show t.size < fuel by omega))
      · rw [if_neg hexceeds]
        exact .within (Bool.eq_false_iff.mpr hexceeds)

theorem Agrees.trimRun (h : s.Agrees) (maxEntries maxVolume : Nat) :
    TrimRun maxEntries maxVolume s (s.trimTo maxEntries maxVolume).1
      (s.trimTo maxEntries maxVolume).2 :=
  h.trimLoop_run maxEntries maxVolume (Nat.lt_succ_self _)

theorem Agrees.putRun (h : s.Agrees) (key : K) (value : V) (attributes : Attributes)
    (expires : Option Nat) (now : Nat) (recordAccess : Bool) :
    PutRun s key value attributes expires now recordAccess
      (s.put key value attributes expires now recordAccess).1
      (s.put key value attributes expires now recordAccess).2 := by
  by_cases hadmits : s.admits attributes.size = true
  · cases hslot : s.slot? key with
    | some slot =>
        obtain ⟨-, hmoves, -⟩ := h.putPresent hslot value attributes expires now recordAccess
        rw [put_of_present hadmits hslot]
        exact .present hadmits hslot (hmoves.agrees.trimRun s.maxEntries s.maxVolume)
    | none =>
        obtain ⟨-, hmoves, -⟩ := h.appendedInRoom hslot value attributes expires now
        rw [h.put_of_absent hadmits hslot]
        exact .absent hadmits hslot (h.trimRun _ _) (hmoves.agrees.trimRun _ _)
  · rw [Store.put, if_neg hadmits]
    exact .oversized (Bool.eq_false_iff.mpr hadmits)

/-! ## The limits -/

/-- A run of the loop ends within the limits, if there is always a victim. -/
theorem Agrees.trimLoop_within (h : s.Agrees) (hyield : s.policy.Yielding)
    (maxEntries maxVolume : Nat) {fuel : Nat} (hfuel : s.size < fuel) :
    (Store.trimLoop maxEntries maxVolume fuel s).2.exceeds maxEntries maxVolume = false := by
  induction fuel generalizing s with
  | zero => exact absurd hfuel (Nat.not_lt_zero _)
  | succ fuel ih =>
      rw [Store.trimLoop]
      by_cases hexceeds : s.exceeds maxEntries maxVolume = true
      · obtain ⟨hsheds, hsome⟩ := h.evictOne
        rw [if_pos hexceeds]
        rcases hone : s.evictOne with ⟨victim, t⟩
        rw [hone] at hsheds hsome
        cases victim with
        | none =>
            -- without a victim there is no entry, and nothing is exceeded
            have hsize : s.size = 0 := by
              by_contra hne
              exact absurd (hsome hyield hne) (by simp)
            have hslots : s.slots = [] := List.eq_nil_of_length_eq_zero hsize
            have hvolume : s.volume = 0 := by
              rw [h.volume_eq, entries, hslots]
              rfl
            have hsize' : t.size + 0 = s.size := hsheds.size_eq
            have hvolume' : t.volume ≤ s.volume := hsheds.volume_le
            exact exceeds_eq_false.mpr
              ⟨show t.size ≤ maxEntries by omega, show t.volume ≤ maxVolume by omega⟩
        | some e =>
            have hsize := hsheds.size_eq
            simp only [Option.toList_some, List.length_cons, List.length_nil] at hsize
            exact ih hsheds.agrees (hsheds.moves.yielding hyield) (show t.size < fuel by omega)
      · rw [if_neg hexceeds]
        exact Bool.eq_false_iff.mpr hexceeds

theorem Agrees.trimTo_within (h : s.Agrees) (hyield : s.policy.Yielding)
    (maxEntries maxVolume : Nat) :
    (s.trimTo maxEntries maxVolume).2.size ≤ maxEntries ∧
      (s.trimTo maxEntries maxVolume).2.volume ≤ maxVolume :=
  exceeds_eq_false.mp (h.trimLoop_within hyield maxEntries maxVolume (Nat.lt_succ_self _))

/-- Shedding entries keeps a store within its limits. -/
theorem Sheds.within {went : List (Entry K V)} (h : Sheds s went t) (hwithin : s.Within) :
    t.Within where
  size_le := by
    have hsize := h.size_eq
    have hlimit := hwithin.size_le
    rw [h.moves.maxEntries_eq]
    omega
  volume_le := by
    rw [h.moves.maxVolume_eq]
    exact Nat.le_trans h.volume_le hwithin.volume_le

/-- A store that was trimmed to the limits of another, which are its own, is within them. -/
theorem Agrees.within_of_trimTo (h : t.Agrees) (hyield : t.policy.Yielding)
    (hentries : t.maxEntries = s.maxEntries) (hvolume : t.maxVolume = s.maxVolume) :
    (t.trimTo s.maxEntries s.maxVolume).2.Within := by
  obtain ⟨hsize, htotal⟩ := h.trimTo_within hyield s.maxEntries s.maxVolume
  have hmoves := (h.trimTo s.maxEntries s.maxVolume).moves
  refine ⟨?_, ?_⟩
  · rw [hmoves.maxEntries_eq, hentries]
    exact hsize
  · rw [hmoves.maxVolume_eq, hvolume]
    exact htotal

/-- A write that fits ends with a trim to the limits, and one that does not fit only
removes. -/
theorem Agrees.put_within (h : s.Agrees) (hyield : s.policy.Yielding) (hwithin : s.Within)
    (key : K) (value : V) (attributes : Attributes) (expires : Option Nat) (now : Nat)
    (recordAccess : Bool) :
    (s.put key value attributes expires now recordAccess).2.Within := by
  by_cases hadmits : s.admits attributes.size = true
  · cases hslot : s.slot? key with
    | some slot =>
        obtain ⟨-, hmoves, -⟩ := h.putPresent hslot value attributes expires now recordAccess
        rw [put_of_present hadmits hslot]
        exact hmoves.agrees.within_of_trimTo (hmoves.yielding hyield) hmoves.maxEntries_eq
          hmoves.maxVolume_eq
    | none =>
        obtain ⟨hroom, hmoves, -⟩ := h.appendedInRoom hslot value attributes expires now
        have hboth := hroom.moves.trans hmoves
        rw [h.put_of_absent hadmits hslot]
        exact hboth.agrees.within_of_trimTo (hboth.yielding hyield) hboth.maxEntries_eq
          hboth.maxVolume_eq
  · rw [Store.put, if_neg hadmits]
    exact (h.remove key).2.1.within hwithin

theorem Agrees.act_within (h : s.Agrees) (hyield : s.policy.Yielding) (hwithin : s.Within)
    (action : Action K V) : (s.act action).Within := by
  cases action with
  | put key value attributes expires now recordAccess =>
      exact h.put_within hyield hwithin key value attributes expires now recordAccess
  | touch key now =>
      cases hget : s.get? key with
      | none =>
          rw [Store.act, touch_of_absent hget]
          exact hwithin
      | some e =>
          obtain ⟨-, hmoves, -⟩ := h.touch hget now
          have hsize := hmoves.size_eq
          have hvolume := hmoves.volume_eq
          have hsame : (e.access now).size = e.size := rfl
          have hsizeLimit := hwithin.size_le
          have hvolumeLimit := hwithin.volume_le
          simp only [List.length_cons, List.length_nil, total_cons, total_nil] at hsize hvolume
          refine ⟨?_, ?_⟩
          · rw [Store.act, hmoves.maxEntries_eq]
            omega
          · rw [Store.act, hmoves.maxVolume_eq]
            omega
  | remove key => exact (h.remove key).2.1.within hwithin
  | removeIf condition => exact (h.removeIf condition).within hwithin
  | clear => exact h.clear.1.within hwithin
  | trimTo maxEntries maxVolume => exact (h.trimTo maxEntries maxVolume).within hwithin
  | setLimits maxEntries maxVolume =>
      exact (h.withLimits maxEntries maxVolume).within_of_trimTo
        (s := { s with maxEntries := maxEntries, maxVolume := maxVolume }) hyield rfl rfl

theorem Agrees.run_within (h : s.Agrees) (hyield : s.policy.Yielding) (hwithin : s.Within)
    (actions : List (Action K V)) : (s.run actions).Within := by
  induction actions generalizing s with
  | nil => exact hwithin
  | cons action actions ih =>
      have hstep := h.act action
      exact ih hstep.agrees (hstep.yielding hyield) (h.act_within hyield hwithin action)

/-! ## The limits in force -/

/-- The limits that an operation sets. -/
def Action.limits? : Action K V → Option (Nat × Nat)
  | .setLimits maxEntries maxVolume => some (maxEntries, maxVolume)
  | .put .. | .touch .. | .remove _ | .removeIf _ | .clear | .trimTo .. => none

/-- The limits after some operations: those set last, if any are. -/
def limitsAfter (limits : Nat × Nat) (actions : List (Action K V)) : Nat × Nat :=
  (actions.filterMap Action.limits?).getLastD limits

omit [DecidableEq K] in
theorem Moves.limits_eq {came went : List (Entry K V)} (h : Moves s came went t) :
    (t.maxEntries, t.maxVolume) = (s.maxEntries, s.maxVolume) :=
  Prod.ext h.maxEntries_eq h.maxVolume_eq

/-- Only setting the limits changes them. -/
theorem Agrees.act_limits (h : s.Agrees) (action : Action K V) :
    ((s.act action).maxEntries, (s.act action).maxVolume) =
      action.limits?.getD (s.maxEntries, s.maxVolume) := by
  cases action with
  | put key value attributes expires now recordAccess =>
      exact (h.put key value attributes expires now recordAccess).moves.limits_eq
  | touch key now =>
      cases hget : s.get? key with
      | none =>
          rw [Store.act, touch_of_absent hget]
          rfl
      | some e =>
          obtain ⟨-, hmoves, -⟩ := h.touch hget now
          exact hmoves.limits_eq
  | remove key => exact (h.remove key).2.1.moves.limits_eq
  | removeIf condition => exact (h.removeIf condition).moves.limits_eq
  | clear => exact h.clear.1.moves.limits_eq
  | trimTo maxEntries maxVolume => exact (h.trimTo maxEntries maxVolume).moves.limits_eq
  | setLimits maxEntries maxVolume => exact (h.setLimits maxEntries maxVolume).moves.limits_eq

theorem Agrees.run_limits (h : s.Agrees) (actions : List (Action K V)) :
    ((s.run actions).maxEntries, (s.run actions).maxVolume) =
      limitsAfter (s.maxEntries, s.maxVolume) actions := by
  induction actions generalizing s with
  | nil => rfl
  | cons action actions ih =>
      have hrest := ih (h.act action).agrees
      rw [h.act_limits action] at hrest
      rw [limitsAfter, List.filterMap_cons]
      cases hlimits : action.limits? with
      | none =>
          rw [hlimits] at hrest
          exact hrest
      | some limits =>
          rw [hlimits] at hrest
          rw [List.getLastD_cons]
          exact hrest

/-- After every run from an empty store, over a policy that yields, the limits in force, which
are those set last, hold, trimming to any others makes those hold too, and every loop that
evicts comes to its end. -/
theorem run_within_limits (hstart : p.Starts) (hyield : p.Yielding) (maxEntries maxVolume : Nat)
    (walk : Walk (Slot K V)) (actions : List (Action K V)) :
    let s := (new p maxEntries maxVolume walk).run actions
    (s.maxEntries, s.maxVolume) = limitsAfter (maxEntries, maxVolume) actions ∧
      (s.size ≤ s.maxEntries ∧ s.exactVolume ≤ s.maxVolume) ∧
      (∀ entries volume, (s.trimTo entries volume).2.size ≤ entries ∧
        (s.trimTo entries volume).2.exactVolume ≤ volume) ∧
      EvictRun s s.evictOne.1 s.evictOne.2 ∧
      (∀ entries volume,
        TrimRun entries volume s (s.trimTo entries volume).1 (s.trimTo entries volume).2) ∧
      ∀ key value attributes expires now recordAccess,
        PutRun s key value attributes expires now recordAccess
          (s.put key value attributes expires now recordAccess).1
          (s.put key value attributes expires now recordAccess).2 := by
  intro s
  have hnew := agrees_new hstart maxEntries maxVolume walk
  obtain ⟨h, hyielding⟩ := hnew.run actions
  have hwithin := hnew.run_within hyield ⟨Nat.zero_le _, Nat.zero_le _⟩ actions
  refine ⟨hnew.run_limits actions, ⟨hwithin.size_le, ?_⟩, fun entries volume => ?_, h.evictRun,
    h.trimRun, h.putRun⟩
  · have hvolume := hwithin.volume_le
    rw [h.volume_eq] at hvolume
    exact hvolume
  · obtain ⟨hsize, hvolume⟩ := h.trimTo_within (hyielding hyield) entries volume
    rw [(h.trimTo entries volume).agrees.volume_eq] at hvolume
    exact ⟨hsize, hvolume⟩

/-- The theorem at a store over the least recently used policy, in which an entry has grown
to the whole volume before the limits become tighter. -/
theorem run_within_limits_lru :
    let s := (new (PolicyChoice.build .lru) 2 10 : Store Nat Nat).run
      [.put 1 10 { size := 3 } none 0 true, .put 2 20 { size := 4 } none 1 true,
        .put 1 11 { size := 10 } none 2 true, .put 2 21 { size := 2 } none 3 true,
        .setLimits 1 5, .trimTo 3 12]
    (s.maxEntries, s.maxVolume) = (1, 5) ∧ s.size ≤ s.maxEntries ∧ s.exactVolume ≤ s.maxVolume := by
  obtain ⟨hlimits, hwithin, -⟩ := run_within_limits (.builtIn .lru) trivial 2 10 .plain
    [.put 1 10 { size := 3 } none 0 true, .put 2 20 { size := 4 } none 1 true,
      .put 1 11 { size := 10 } none 2 true, .put 2 21 { size := 2 } none 3 true,
      .setLimits 1 5, .trimTo 3 12]
  exact ⟨hlimits, hwithin⟩

end BoundedCache.Store
