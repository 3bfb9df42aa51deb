import BoundedCache.Proofs.Store.Operations

/-!
# A store is consistent after every run

`Consistent` is agreement as a user of the store can check it: the policy lists the keys
of the entries, each once, every slot is found in the policy by its index, and the
volume is the sum of the sizes.

The balance of an operation is `exchange`: the entries that it reports as written, and
those that it reports as gone.  That the volume follows this balance exactly shows that
no subtraction of a size was ever cut off at zero, not even in the middle of an
operation: an excess would stay until the end.
-/

namespace BoundedCache.Store

variable {K V : Type} {s : Store K V} {p : Policy K}

/-- The entries, the policy and the volume of the store fit together. -/
structure Consistent (s : Store K V) : Prop where
  keys_nodup : (s.entries.map (·.key)).Nodup
  size_eq : s.size = s.policy.size
  keys_perm : s.keys.Perm (s.entries.map (·.key))
  peek?_eq : ∀ slot ∈ s.slots, s.policy.peek? slot.index = some slot.entry.key
  indices_nodup : (s.slots.map (·.index)).Nodup
  volume_eq : s.volume = s.exactVolume
  size_le : ∀ slot ∈ s.slots, slot.entry.size ≤ s.volume

theorem agrees_new (hstart : p.Starts) (maxEntries maxVolume : Nat) (walk : Walk (Slot K V)) :
    (new p maxEntries maxVolume walk).Agrees where
  sound := hstart.sound
  distinct := List.nodup_nil
  indexed := by
    rw [show (new p maxEntries maxVolume walk).policy.peek? = _ from hstart.peek?]
    exact .nil
  volume_eq := rfl

/-- A step of a run: the invariant holds again, and the volume follows the balance. -/
structure Steps (s : Store K V) (balance : List (Entry K V) × List (Entry K V))
    (t : Store K V) : Prop where
  agrees : t.Agrees
  volume_eq : t.volume + total balance.2 = s.volume + total balance.1
  yielding : s.policy.Yielding → t.policy.Yielding

theorem Moves.steps {came went : List (Entry K V)} {t : Store K V} (h : Moves s came went t) :
    Steps s (came, went) t :=
  ⟨h.agrees, h.volume_eq, h.yielding⟩

variable [DecidableEq K]

theorem Agrees.consistent (h : s.Agrees) : s.Consistent := by
  obtain ⟨hlists, hlength⟩ := h.sound.peekAll
  have hkeys : s.keys.Perm (s.entries.map (·.key)) := by
    have hperm := hlists.perm h.indexed.lists
    rw [byIndex, List.map_map] at hperm
    rw [entries, List.map_map]
    exact hperm
  refine ⟨?_, ?_, hkeys, fun _ => h.peek?_index, ?_, h.volume_eq, fun _ => h.size_le⟩
  · rw [entries, List.map_map]
    exact h.distinct
  · rw [hlength, show s.policy.peekAll = s.keys from rfl, hkeys.length_eq, List.length_map,
      entries, List.length_map]
    rfl
  · have hnodup := h.indexed.nodup
    rw [byIndex, List.map_map] at hnodup
    exact hnodup

/-! ## Operations -/

/-- The entries that an operation writes, and those that leave by it. -/
def exchange (s : Store K V) : Action K V → List (Entry K V) × List (Entry K V)
  | .put key value attributes expires now recordAccess =>
      let w := (s.put key value attributes expires now recordAccess).1
      ([w.new], w.old.toList ++ w.evicted)
  | .touch _ _ => ([], [])
  | .remove key => ([], (s.remove key).1.toList)
  | .removeIf condition => ([], (s.removeIf condition).1)
  | .clear => ([], s.clear.1)
  | .trimTo maxEntries maxVolume => ([], (s.trimTo maxEntries maxVolume).1)
  | .setLimits maxEntries maxVolume => ([], (s.setLimits maxEntries maxVolume).1)

theorem Agrees.act (h : s.Agrees) (action : Action K V) :
    Steps s (s.exchange action) (s.act action) := by
  cases action with
  | put key value attributes expires now recordAccess =>
      exact (h.put key value attributes expires now recordAccess).moves.steps
  | touch key now =>
      cases hget : s.get? key with
      | none =>
          rw [Store.act, touch_of_absent hget]
          exact h.moves.steps
      | some e =>
          obtain ⟨-, hmoves, -⟩ := h.touch hget now
          have hvolume := hmoves.volume_eq
          rw [total_cons, total_cons] at hvolume
          exact ⟨hmoves.agrees, Nat.add_right_cancel hvolume, hmoves.yielding⟩
  | remove key => exact (h.remove key).2.1.moves.steps
  | removeIf condition => exact (h.removeIf condition).moves.steps
  | clear => exact h.clear.1.moves.steps
  | trimTo maxEntries maxVolume => exact (h.trimTo maxEntries maxVolume).moves.steps
  | setLimits maxEntries maxVolume =>
      have hmoves := (h.setLimits maxEntries maxVolume).moves
      exact ⟨hmoves.agrees, hmoves.volume_eq, hmoves.yielding⟩

/-! ## Runs -/

theorem Agrees.run (h : s.Agrees) (actions : List (Action K V)) :
    (s.run actions).Agrees ∧ (s.policy.Yielding → (s.run actions).policy.Yielding) := by
  induction actions generalizing s with
  | nil => exact ⟨h, id⟩
  | cons action actions ih =>
      have hstep := h.act action
      obtain ⟨hagrees, hyielding⟩ := ih hstep.agrees
      exact ⟨hagrees, fun hyield => hyielding (hstep.yielding hyield)⟩

/-- After every run from an empty store, over whatever policy, the store is consistent,
and the volume goes on to follow what operations report. -/
theorem run_consistent (hstart : p.Starts) (maxEntries maxVolume : Nat)
    (walk : Walk (Slot K V)) (actions : List (Action K V)) :
    let s := (new p maxEntries maxVolume walk).run actions
    s.Consistent ∧ ∀ action, (s.act action).volume + total (s.exchange action).2 =
      s.volume + total (s.exchange action).1 := by
  intro s
  have hagrees := ((agrees_new hstart maxEntries maxVolume walk).run actions).1
  exact ⟨hagrees.consistent, fun action => (hagrees.act action).volume_eq⟩

/-- The theorem at a store over a policy that loses what it should update. -/
theorem run_consistent_forgetful :
    let s := (new Policy.emptyForgetful 2 10 : Store Nat Nat).run
      [.put 1 10 { size := 3 } none 0 true, .put 1 11 { size := 4 } none 1 true]
    s.Consistent ∧ ∀ action, (s.act action).volume + total (s.exchange action).2 =
      s.volume + total (s.exchange action).1 :=
  run_consistent (.forgetful .lru) 2 10 .plain _

end BoundedCache.Store
