import BoundedCache.Proofs.Store.Recency

/-!
# More room, no fewer hits

Two stores by recency of use, one with more room than the other, go through the same
writes, reads and removals.  They do not stay in step: a read that the larger store answers
may find nothing in the smaller one, and a key that is new to the smaller one may be an old
one of the larger.  Still the smaller store is always part of the larger: its order of use
is a subsequence (`List.Sublist`) of the other, and what it holds the other holds too.

The invariant is `Nested`.  That one order is part of the other is not enough to go on,
since the larger store might evict a key that the smaller one keeps.  What prevents it is
the gap: the larger store is longer by no more than it has more room.  A step closes the
gap or leaves it, and never opens it, whatever happens in either store; so a write takes
from the front of the larger order at most as many keys as from the front of the smaller.
-/

namespace BoundedCache.Store

variable {K V : Type}

/-! ## Two orders of use -/

/-- One order of use is part of the other, which is longer by no more than it has room for
more keys. -/
structure Nested (n : Nat) (small : List K) (m : Nat) (large : List K) : Prop where
  sublist : small.Sublist large
  gap : large.length + n ≤ small.length + m

variable {n m : Nat} {small large : List K}

theorem Nested.rtake (h : Nested n small m large) :
    Nested n (small.rtake n) m (large.rtake m) where
  sublist := by
    have hgap := h.gap
    have hfewer : large.length - m ≤ small.length - n := by omega
    exact (h.sublist.drop _).trans (List.drop_sublist_drop_left large hfewer)
  gap := by
    have hgap := h.gap
    rw [length_rtake, length_rtake]
    omega

theorem Nested.concat (h : Nested n small m large) (key : K) :
    Nested n (small ++ [key]) m (large ++ [key]) where
  sublist := h.sublist.append_right [key]
  gap := by
    have hgap := h.gap
    rw [List.length_append, List.length_append]
    omega

variable [DecidableEq K]

/-- A key that leaves both orders may close the gap, but cannot open it. -/
theorem Nested.erase (h : Nested n small m large) (key : K) :
    Nested n (small.erase key) m (large.erase key) where
  sublist := h.sublist.erase key
  gap := by
    have hgap := h.gap
    rw [List.length_erase, List.length_erase]
    by_cases hsmall : key ∈ small
    · have hlarge := h.sublist.subset hsmall
      have hpos := List.length_pos_of_mem hsmall
      have hpos' := List.length_pos_of_mem hlarge
      rw [if_pos hsmall, if_pos hlarge]
      omega
    · rw [if_neg hsmall]
      split <;> omega

/-- The orders stay nested, whichever of the two has the key. -/
theorem Nested.reorder (h : Nested n small m large) (action : Action K V) :
    Nested n (reorder n small action) m (reorder m large action) := by
  cases action with
  | put key => exact ((h.erase key).concat key).rtake
  | remove key => exact h.erase key
  | touch key now =>
      simp only [Store.reorder]
      by_cases hsmall : key ∈ small
      · rw [if_pos hsmall, if_pos (h.sublist.subset hsmall)]
        exact (h.erase key).concat key
      · rw [if_neg hsmall]
        split
        · -- a hit in the larger store alone moves a key that the smaller does not have
          rename_i hlarge
          refine ⟨?_, ?_⟩
          · rw [← List.erase_of_not_mem hsmall]
            exact (h.sublist.erase key).trans (List.sublist_append_left _ _)
          · rw [length_erase_concat hlarge]
            exact h.gap
        · exact h
  | _ => exact h

/-! ## What is held -/

/-- What the keys stand for after an action, if they are still there. -/
def overwrite (f : K → Option V) : Action K V → K → Option V
  | .put key value .. => Function.update f key (some value)
  | .remove key => Function.update f key none
  | _ => f

theorem overwrite_mono {f g : K → Option V} (hle : ∀ key value, f key = some value →
    g key = some value) (action : Action K V) (key : K) (value : V)
    (h : overwrite f action key = some value) : overwrite g action key = some value := by
  have hupdate : ∀ written v?, Function.update f written v? key = some value →
      Function.update g written v? key = some value := by
    intro written v? hf
    by_cases heq : key = written
    · rwa [heq, Function.update_self] at hf ⊢
    · rw [Function.update_of_ne heq] at hf ⊢
      exact hle key value hf
  cases action with
  | put written v => exact hupdate written (some v) h
  | remove written => exact hupdate written none h
  | _ => exact hle key value h

variable {s t : Store K V}

theorem Agrees.value_put (h : s.Agrees) (key : K) (value : V) (attributes : Attributes)
    (expires : Option Nat) (now : Nat) (recordAccess : Bool) :
    (s.put key value attributes expires now recordAccess).1.new.value = value := by
  by_cases hadmits : s.admits attributes.size = true
  · cases hslot : s.slot? key with
    | some slot =>
        rw [put_of_present hadmits hslot, putPresent_eq]
        cases recordAccess <;> rfl
    | none =>
        rw [h.put_of_absent hadmits hslot]
        rfl
  · rw [Store.put, if_neg hadmits, Store.putOversized]
    rcases s.remove key with ⟨_ | old, t⟩ <;> rfl

theorem Loses.values_eq {f g : K → Option (Entry K V)} {went : List (Entry K V)}
    (h : Loses f went g) {key : K} {value : V} (hg : values g key = some value) :
    values f key = some value := by
  rw [values, h.after] at hg
  split at hg
  · exact absurd hg (by simp)
  · exact hg

/-- What is still there is what the action has left. -/
theorem Agrees.contents_act (h : s.Agrees) {action : Action K V} (hpaging : action.IsPaging)
    {key : K} {value : V} (hheld : (s.act action).contents key = some value) :
    overwrite s.contents action key = some value := by
  cases hpaging with
  | @put written v attributes expires now recordAccess _ =>
      obtain ⟨-, -, hloses⟩ := h.exact.put written v attributes expires now recordAccess
      have hvalue := h.value_put written v attributes expires now recordAccess
      have hkept := hloses.values_eq hheld
      rw [values_update, Option.map_some, hvalue] at hkept
      exact hkept
  | @touch read now =>
      obtain ⟨hanswer, hafter⟩ := h.touch_get? read now
      have hsame : (s.act (.touch read now)).contents = s.contents := by
        rw [contents_eq, Store.act, hafter, values_update, hanswer, Option.map_map]
        exact Function.update_eq_self_iff.mpr rfl
      rwa [hsame] at hheld
  | @remove removed =>
      obtain ⟨-, -, hafter⟩ := h.remove removed
      rw [contents_eq, Store.act, hafter, values_update] at hheld
      exact hheld

theorem Agrees.mem_keys_iff_contents (h : s.Agrees) (key : K) :
    key ∈ s.keys ↔ ∃ value, s.contents key = some value := by
  rw [h.mem_keys_iff]
  constructor
  · rintro ⟨e, hget⟩
    exact ⟨e.value, Option.map_eq_some_iff.mpr ⟨e, hget, rfl⟩⟩
  · rintro ⟨value, hheld⟩
    obtain ⟨e, hget, -⟩ := Option.map_eq_some_iff.mp hheld
    exact ⟨e, hget⟩

/-! ## Two runs -/

/-- Two stores in the course of the same run. -/
structure Inside (n : Nat) (s : Store K V) (m : Nat) (t : Store K V) : Prop where
  small : s.Pages n s.keys
  large : t.Pages m t.keys
  small_le : s.keys.length ≤ n
  large_le : t.keys.length ≤ m
  nested : Nested n s.keys m t.keys
  contents : ∀ key value, s.contents key = some value → t.contents key = some value

theorem Inside.act (h : Inside n s m t) {action : Action K V} (hpaging : action.IsPaging) :
    Inside n (s.act action) m (t.act action) := by
  have hsmall := h.small.act h.small_le hpaging
  have hlarge := h.large.act h.large_le hpaging
  have hnested := h.nested.reorder action
  rw [← hsmall.keys_eq, ← hlarge.keys_eq] at hnested
  refine ⟨hsmall.keys_eq ▸ hsmall, hlarge.keys_eq ▸ hlarge, ?_, ?_, hnested, ?_⟩
  · rw [hsmall.keys_eq]
    exact length_reorder_le h.small_le action
  · rw [hlarge.keys_eq]
    exact length_reorder_le h.large_le action
  · intro key value hheld
    have hkey := (hsmall.agrees.mem_keys_iff_contents key).mpr ⟨value, hheld⟩
    -- the larger store has the key as well, and both have what the action left
    obtain ⟨value', hheld'⟩ :=
      (hlarge.agrees.mem_keys_iff_contents key).mp (hnested.sublist.subset hkey)
    have hleft := overwrite_mono h.contents action key value
      (h.small.agrees.contents_act hpaging hheld)
    have hleft' := h.large.agrees.contents_act hpaging hheld'
    rw [hheld', ← hleft', hleft]

theorem Inside.run (h : Inside n s m t) {actions : List (Action K V)}
    (hpaging : ∀ action ∈ actions, action.IsPaging) :
    Inside n (s.run actions) m (t.run actions) := by
  induction actions generalizing s t with
  | nil => exact h
  | cons action actions ih =>
      obtain ⟨hfirst, hrest⟩ := List.forall_mem_cons.mp hpaging
      exact ih (h.act hfirst) hrest

theorem inside_new {maxEntries maxEntries' : Nat} (hle : maxEntries ≤ maxEntries')
    (maxVolume : Nat) (walk walk' : Walk (Slot K V)) :
    Inside (min maxEntries maxVolume) (new (PolicyChoice.build .lru) maxEntries maxVolume walk)
      (min maxEntries' maxVolume)
      (new (PolicyChoice.build .lru) maxEntries' maxVolume walk') where
  small := pages_new maxEntries maxVolume walk
  large := pages_new maxEntries' maxVolume walk'
  small_le := Nat.zero_le _
  large_le := Nat.zero_le _
  nested := ⟨List.Sublist.refl _, Nat.add_le_add_left (by omega) _⟩
  contents _ _ hheld := hheld

/-- After the same writes of entries of size one, reads and removals, a store with room for
fewer entries is part of one with room for more: it holds nothing that the other does not
hold with the same value, its order of eviction is a subsequence, and a read that succeeds
on it succeeds on the other. -/
theorem run_included (hle : n ≤ m) (walk walk' : Walk (Slot K V)) {actions : List (Action K V)}
    (hpaging : ∀ action ∈ actions, action.IsPaging) :
    let s := (new (PolicyChoice.build .lru) n unbounded walk).run actions
    let t := (new (PolicyChoice.build .lru) m unbounded walk').run actions
    (∀ key value, s.contents key = some value → t.contents key = some value) ∧
      s.keys.Sublist t.keys ∧
      ∀ key now, (s.touch key now).1.isSome = true → (t.touch key now).1.isSome = true := by
  intro s t
  have h := (inside_new hle unbounded walk walk').run hpaging
  refine ⟨h.contents, h.nested.sublist, fun key now hhit => ?_⟩
  rw [(h.small.agrees.touch_get? key now).1, Option.isSome_map] at hhit
  rw [(h.large.agrees.touch_get? key now).1, Option.isSome_map]
  obtain ⟨e, hget⟩ := Option.isSome_iff_exists.mp hhit
  have hkey := (h.small.agrees.mem_keys_iff key).mpr ⟨e, hget⟩
  obtain ⟨e', hget'⟩ := (h.large.agrees.mem_keys_iff key).mp (h.nested.sublist.subset hkey)
  exact Option.isSome_iff_exists.mpr ⟨e', hget'⟩

/-- The theorem at a run in which the stores part ways: the read of key 1 succeeds on the
larger store alone, so the victims of the last write are different keys. -/
theorem run_included_parting :
    let actions : List (Action Nat Nat) :=
      [.put 1 10 {} none 0 true, .put 2 20 {} none 1 true, .touch 1 2, .put 3 30 {} none 3 true]
    let s := (new (PolicyChoice.build .lru) 1 unbounded : Store Nat Nat).run actions
    let t := (new (PolicyChoice.build .lru) 2 unbounded : Store Nat Nat).run actions
    ((∀ key value, s.contents key = some value → t.contents key = some value) ∧
      s.keys.Sublist t.keys ∧
      ∀ key now, (s.touch key now).1.isSome = true → (t.touch key now).1.isSome = true) ∧
      s.keys = [3] ∧ t.keys = [1, 3] := by
  refine ⟨run_included (by decide) .plain .plain ?_, rfl, rfl⟩
  simp only [List.forall_mem_cons]
  exact ⟨.put rfl, .put rfl, .touch, .put rfl, fun _ hnone => absurd hnone List.not_mem_nil⟩

end BoundedCache.Store
