import Mathlib.Data.List.DropRight
import BoundedCache.Proofs.Policy.Recency
import BoundedCache.Proofs.Store.Exactness
import BoundedCache.Proofs.Store.Limits

/-!
# A store of entries of size one, by recency of use

Where every entry has size one, the volume is the number of entries, and the two limits of
a store come to one, its capacity.  Under recency of use such a store does what a page
cache does: `Pages s capacity order` says that `s` stands for the cache with the keys
`order`, in the order of their last use, and `reorder` says what an action makes of that
order, without regard to values, times and indices (`Pages.act`).

A write puts its key at the end and keeps as many keys from the end as there is room for.
That is how it looks from outside; inside, a key that is new makes room first, and a key
that is there never has to.
-/

namespace BoundedCache.Store

variable {K V : Type}

theorem total_of_size_eq_one {entries : List (Entry K V)} (h : ∀ e ∈ entries, e.size = 1) :
    total entries = entries.length := by
  induction entries with
  | nil => rfl
  | cons e rest ih =>
      obtain ⟨he, hrest⟩ := List.forall_mem_cons.mp h
      rw [total_cons, he, ih hrest, List.length_cons, Nat.add_comm]

variable [DecidableEq K] {s t : Store K V} {order : List K} {capacity : Nat}
variable {key : K} {slot : Slot K V}

/-! ## The order of use -/

/-- Writing entries of size one, reading and removing. -/
inductive Action.IsPaging : Action K V → Prop where
  | put {key : K} {value : V} {attributes : Attributes} {expires : Option Nat} {now : Nat}
      {recordAccess : Bool} (hsize : attributes.size = 1) :
      IsPaging (.put key value attributes expires now recordAccess)
  | touch {key : K} {now : Nat} : IsPaging (.touch key now)
  | remove {key : K} : IsPaging (.remove key)

/-- The order of use after an action, where there is room for `capacity` keys. -/
def reorder (capacity : Nat) (order : List K) : Action K V → List K
  | .put key .. => (order.erase key ++ [key]).rtake capacity
  | .touch key _ => if key ∈ order then order.erase key ++ [key] else order
  | .remove key => order.erase key
  | _ => order

theorem length_rtake {α : Type} (l : List α) (n : Nat) : (l.rtake n).length = min l.length n := by
  rw [List.rtake, List.length_drop]
  omega

theorem length_rtake_le {α : Type} (l : List α) (n : Nat) : (l.rtake n).length ≤ n := by
  rw [length_rtake]
  exact Nat.min_le_right _ _

theorem rtake_of_length_le {α : Type} {l : List α} {n : Nat} (h : l.length ≤ n) :
    l.rtake n = l := by
  rw [List.rtake, Nat.sub_eq_zero_of_le h, List.drop_zero]

/-- A key that is used again takes the place that it has left. -/
theorem length_erase_concat (h : key ∈ order) :
    (order.erase key ++ [key]).length = order.length := by
  have hpos := List.length_pos_of_mem h
  rw [List.length_append, List.length_erase_of_mem h, List.length_singleton]
  omega

theorem length_reorder_le (h : order.length ≤ capacity) (action : Action K V) :
    (reorder capacity order action).length ≤ capacity := by
  cases action with
  | put key =>
      rw [reorder]
      exact length_rtake_le _ _
  | touch key now =>
      rw [reorder]
      split
      · rwa [length_erase_concat ‹_›]
      · exact h
  | remove key => exact Nat.le_trans List.length_erase_le h
  | _ => exact h

/-! ## Standing for a page cache -/

/-- The store orders its keys by recency of use, all its entries have size one, and there
is room for `capacity` of them. -/
structure Pages (s : Store K V) (capacity : Nat) (order : List K) : Prop where
  agrees : s.Agrees
  byRecency : s.policy.ByRecency
  keys_eq : s.keys = order
  size_eq_one : ∀ key e, s.get? key = some e → e.size = 1
  capacity_eq : min s.maxEntries s.maxVolume = capacity

theorem pages_new (maxEntries maxVolume : Nat) (walk : Walk (Slot K V)) :
    (new (PolicyChoice.build .lru) maxEntries maxVolume walk).Pages
      (min maxEntries maxVolume) [] where
  agrees := agrees_new (.builtIn .lru) maxEntries maxVolume walk
  byRecency := Policy.byRecency_start
  keys_eq := rfl
  size_eq_one key e hget := absurd hget (by simp [new, get?, slot?])
  capacity_eq := rfl

theorem Agrees.keys_nodup (h : s.Agrees) : s.keys.Nodup :=
  h.consistent.keys_perm.symm.nodup h.consistent.keys_nodup

theorem Agrees.mem_keys_iff (h : s.Agrees) (key : K) : key ∈ s.keys ↔ ∃ e, s.get? key = some e := by
  rw [h.consistent.keys_perm.mem_iff, List.mem_map]
  constructor
  · rintro ⟨e, he, rfl⟩
    exact ⟨e, (h.mem_entries_iff e).mp he⟩
  · rintro ⟨e, hget⟩
    refine ⟨e, ?_, key_of_get? hget⟩
    rw [h.mem_entries_iff, key_of_get? hget, hget]

theorem Pages.size_eq (h : s.Pages capacity order) : s.size = order.length := by
  rw [← h.keys_eq, h.agrees.consistent.keys_perm.length_eq, List.length_map, entries,
    List.length_map, size]

theorem Pages.volume_eq (h : s.Pages capacity order) : s.volume = order.length := by
  have hones : ∀ e ∈ s.entries, e.size = 1 := fun e he =>
    h.size_eq_one e.key e ((h.agrees.mem_entries_iff e).mp he)
  rw [h.agrees.volume_eq, total_of_size_eq_one hones, entries, List.length_map, ← h.size_eq, size]

/-- The two limits are exceeded as one. -/
theorem Pages.exceeds_iff (h : s.Pages capacity order) (maxEntries maxVolume : Nat) :
    s.exceeds maxEntries maxVolume = true ↔ min maxEntries maxVolume < order.length := by
  rw [exceeds, h.volume_eq, h.size_eq, Bool.or_eq_true, decide_eq_true_iff, decide_eq_true_iff]
  omega

/-- A key without an entry is not in the order. -/
theorem Pages.not_mem (h : s.Pages capacity order) (hget : s.get? key = none) : key ∉ order := by
  rw [← h.keys_eq, h.agrees.mem_keys_iff, hget]
  rintro ⟨e, he⟩
  exact Option.some_ne_none e he.symm

/-- A key with a slot is in the order, and the policy has it at the index of the slot. -/
theorem Pages.mem (h : s.Pages capacity order) (hslot : s.slot? key = some slot) :
    key ∈ order ∧ s.policy.peek? slot.index = some key := by
  obtain ⟨hmem, rfl⟩ := (slot?_eq_some h.agrees).mp hslot
  refine ⟨?_, h.agrees.peek?_index hmem⟩
  rw [← h.keys_eq, h.agrees.mem_keys_iff]
  exact ⟨slot.entry, get?_of_slot? hslot⟩

/-- Entries that have left do not change the size of the others. -/
theorem Takes.size_eq_one {f g : K → Option (Entry K V)} {went : List (Entry K V)}
    (h : Takes f went g) (hf : ∀ key e, f key = some e → e.size = 1) :
    ∀ key e, g key = some e → e.size = 1 := by
  intro key e hg
  rw [h.loses.after] at hg
  split at hg
  · exact absurd hg (by simp)
  · exact hf key e hg

/-- An entry of size one may take any place. -/
theorem size_eq_one_update {f : K → Option (Entry K V)} {new : Entry K V}
    (hf : ∀ key e, f key = some e → e.size = 1) (hnew : new.size = 1) (key : K) :
    ∀ other e, Function.update f key (some new) other = some e → e.size = 1 := by
  intro other e hother
  by_cases heq : other = key
  · rw [heq, Function.update_self, Option.some.injEq] at hother
    exact hother ▸ hnew
  · rw [Function.update_of_ne heq] at hother
    exact hf other e hother

/-! ## Victims -/

/-- The victim of a store is the victim of its policy. -/
theorem Agrees.evictOne_policy (h : s.Agrees) :
    s.evictOne.1.map (·.key) = s.policy.evict.1 ∧ s.evictOne.2.policy = s.policy.evict.2 := by
  obtain ⟨hyields, -, -⟩ := h.sound.evict
  rcases hanswer : s.policy.evict with ⟨victim, policy⟩
  rw [hanswer] at hyields
  rw [Store.evictOne, Store.evictLoop, hanswer]
  cases victim with
  | none => exact ⟨rfl, rfl⟩
  | some key =>
      obtain ⟨i, hi, -⟩ := hyields.of_some
      obtain ⟨slot, hmem, -, rfl⟩ := h.exists_slot hi
      have hslot : s.slot? slot.entry.key = some slot := (slot?_eq_some h).mpr ⟨hmem, rfl⟩
      simp only [hslot, Option.map_some, and_self]

theorem Pages.evictOne (h : s.Pages capacity order) :
    s.evictOne.1.map (·.key) = order.head? ∧ s.evictOne.2.Pages capacity order.tail := by
  obtain ⟨hvictim, hpolicy⟩ := h.agrees.evictOne_policy
  obtain ⟨hfirst, hrecency, horder⟩ := h.byRecency.evict
  obtain ⟨hsheds, -⟩ := h.agrees.evictOne
  rw [show s.policy.peekAll = order from h.keys_eq] at hfirst horder
  refine ⟨hvictim.trans hfirst, hsheds.agrees, hpolicy ▸ hrecency, ?_,
    hsheds.takes.size_eq_one h.size_eq_one, ?_⟩
  · rw [keys, hpolicy, horder]
  · rw [hsheds.moves.maxEntries_eq, hsheds.moves.maxVolume_eq, h.capacity_eq]

/-- Trimming keeps the keys used last. -/
theorem Pages.trimLoop (h : s.Pages capacity order) (maxEntries maxVolume : Nat) {fuel : Nat}
    (hfuel : order.length < fuel) :
    (Store.trimLoop maxEntries maxVolume fuel s).2.Pages capacity
      (order.rtake (min maxEntries maxVolume)) := by
  induction fuel generalizing s order with
  | zero => exact absurd hfuel (Nat.not_lt_zero _)
  | succ fuel ih =>
      rw [Store.trimLoop]
      by_cases hexceeds : s.exceeds maxEntries maxVolume = true
      · rw [if_pos hexceeds]
        rw [h.exceeds_iff] at hexceeds
        obtain ⟨hfirst, hrest⟩ := h.evictOne
        cases order with
        | nil => exact absurd hexceeds (Nat.not_lt_zero _)
        | cons first rest =>
            obtain ⟨victim, hvictim, -⟩ := Option.map_eq_some_iff.mp hfirst
            rcases hone : s.evictOne with ⟨answer, t⟩
            rw [hone] at hvictim hrest
            obtain rfl : answer = some victim := hvictim
            have hkept : (first :: rest).rtake (min maxEntries maxVolume) =
                rest.rtake (min maxEntries maxVolume) := by
              rw [List.length_cons] at hexceeds
              rw [List.rtake, List.rtake, List.length_cons,
                Nat.succ_sub (Nat.le_of_lt_succ hexceeds), List.drop_succ_cons]
            rw [hkept]
            exact ih hrest (Nat.lt_of_succ_lt_succ hfuel)
      · rw [if_neg hexceeds, rtake_of_length_le]
        · exact h
        · rw [h.exceeds_iff] at hexceeds
          exact Nat.le_of_not_lt hexceeds

theorem Pages.trimTo (h : s.Pages capacity order) (maxEntries maxVolume : Nat) :
    (s.trimTo maxEntries maxVolume).2.Pages capacity (order.rtake (min maxEntries maxVolume)) :=
  h.trimLoop maxEntries maxVolume (h.size_eq ▸ Nat.lt_succ_self _)

/-! ## Actions -/

theorem Pages.remove (h : s.Pages capacity order) (key : K) :
    (s.remove key).2.Pages capacity (order.erase key) := by
  obtain ⟨-, hsheds, -⟩ := h.agrees.remove key
  cases hslot : s.slot? key with
  | none =>
      have hget : s.get? key = none := get?_of_slot? hslot
      rw [remove_of_absent hget, List.erase_of_not_mem (h.not_mem hget)]
      exact h
  | some slot =>
      obtain ⟨-, hindex⟩ := h.mem hslot
      obtain ⟨hrecency, horder⟩ := h.byRecency.remove h.agrees.keys_nodup hindex
      have hpolicy : (s.remove key).2.policy = (s.policy.remove slot.index).2 := by
        rw [Store.remove, hslot]
      refine ⟨hsheds.agrees, hpolicy ▸ hrecency, ?_, hsheds.takes.size_eq_one h.size_eq_one, ?_⟩
      · rw [keys, hpolicy, horder, show s.policy.peekAll = order from h.keys_eq]
      · rw [hsheds.moves.maxEntries_eq, hsheds.moves.maxVolume_eq, h.capacity_eq]

theorem Pages.touch (h : s.Pages capacity order) (key : K) (now : Nat) :
    (s.touch key now).2.Pages capacity
      (if key ∈ order then order.erase key ++ [key] else order) := by
  cases hslot : s.slot? key with
  | none =>
      have hget : s.get? key = none := get?_of_slot? hslot
      rw [touch_of_absent hget, if_neg (h.not_mem hget)]
      exact h
  | some slot =>
      have hget : s.get? key = some slot.entry := get?_of_slot? hslot
      obtain ⟨hmem, hindex⟩ := h.mem hslot
      obtain ⟨hrecency, horder⟩ := h.byRecency.touch h.agrees.keys_nodup hindex
      obtain ⟨-, hmoves, hafter⟩ := h.agrees.touch hget now
      have hpolicy : (s.touch key now).2.policy = s.policy.touch slot.index := by
        rw [Store.touch, hslot]
      rw [if_pos hmem]
      refine ⟨hmoves.agrees, hpolicy ▸ hrecency, ?_, ?_, ?_⟩
      · rw [keys, hpolicy, horder, show s.policy.peekAll = order from h.keys_eq]
      · rw [hafter]
        have haccess : (slot.entry.access now).size = 1 := h.size_eq_one key slot.entry hget
        exact size_eq_one_update h.size_eq_one haccess key
      · rw [hmoves.maxEntries_eq, hmoves.maxVolume_eq, h.capacity_eq]

variable {attributes : Attributes}

theorem Pages.putPresent (h : s.Pages capacity order) (hslot : s.slot? key = some slot)
    (hsize : attributes.size = 1) (value : V) (expires : Option Nat) (now : Nat)
    (recordAccess : Bool) :
    (s.putPresent slot value attributes expires now recordAccess).2.Pages capacity
      (order.erase key ++ [key]) := by
  obtain ⟨hmem, hindex⟩ := h.mem hslot
  obtain ⟨-, hkey⟩ := (slot?_eq_some h.agrees).mp hslot
  obtain ⟨hupdated, hrecency, horder⟩ := h.byRecency.update h.agrees.keys_nodup hindex
  obtain ⟨-, hmoves, hafter⟩ := h.agrees.putPresent hslot value attributes expires now recordAccess
  have hpolicy : (s.putPresent slot value attributes expires now recordAccess).2.policy =
      (s.policy.update slot.index key).2 := by
    rw [putPresent_eq, hkey]
    exact if_pos hupdated
  refine ⟨hmoves.agrees, hpolicy ▸ hrecency, ?_, ?_, ?_⟩
  · rw [keys, hpolicy, horder, show s.policy.peekAll = order from h.keys_eq]
  · rw [hafter, putPresent_eq]
    exact size_eq_one_update h.size_eq_one ((size_rewritten _ _ _ _ _ _).trans hsize) key
  · rw [hmoves.maxEntries_eq, hmoves.maxVolume_eq, h.capacity_eq]

theorem Pages.appended (h : s.Pages capacity order) {e : Entry K V} (hget : s.get? e.key = none)
    (hsize : e.size = 1) : (s.appended e).Pages capacity (order ++ [e.key]) := by
  obtain ⟨hmoves, hafter⟩ := h.agrees.appended e hget
  obtain ⟨hrecency, horder⟩ := h.byRecency.add e.key
  refine ⟨hmoves.agrees, hrecency, ?_, ?_, ?_⟩
  · exact horder.trans (congrArg (· ++ [e.key]) h.keys_eq)
  · rw [hafter]
    exact size_eq_one_update h.size_eq_one hsize e.key
  · rw [hmoves.maxEntries_eq, hmoves.maxVolume_eq, h.capacity_eq]

/-- A write keeps the keys used last, its own among them if there is any room. -/
theorem Pages.put (h : s.Pages capacity order) (hfits : order.length ≤ capacity)
    (hsize : attributes.size = 1) (key : K) (value : V) (expires : Option Nat) (now : Nat)
    (recordAccess : Bool) :
    (s.put key value attributes expires now recordAccess).2.Pages capacity
      ((order.erase key ++ [key]).rtake capacity) := by
  have hcapacity := h.capacity_eq
  by_cases hadmits : s.admits attributes.size = true
  · cases hslot : s.slot? key with
    | some slot =>
        have hwritten := h.putPresent hslot hsize value expires now recordAccess
        have htrimmed := hwritten.trimTo s.maxEntries s.maxVolume
        rw [put_of_present hadmits hslot]
        rwa [hcapacity] at htrimmed
    | none =>
        have hget : s.get? key = none := get?_of_slot? hslot
        obtain ⟨hroom, -, -⟩ := h.agrees.appendedInRoom hslot value attributes expires now
        have hfirst := h.trimTo (s.maxEntries - 1) (s.maxVolume - attributes.size)
        have happended := hfirst.appended
          (e := Entry.new key value attributes expires now) (hroom.takes.eq_none hget) hsize
        have htrimmed := happended.trimTo s.maxEntries s.maxVolume
        rw [h.agrees.put_of_absent hadmits hslot]
        -- the room made before the write is enough, so the trim after it keeps everything
        rw [admits, Bool.and_eq_true, decide_eq_true_iff, decide_eq_true_iff] at hadmits
        obtain ⟨room, rfl⟩ : ∃ room, capacity = room + 1 := ⟨capacity - 1, by omega⟩
        have hmin : min (s.maxEntries - 1) (s.maxVolume - attributes.size) = room := by omega
        rw [hmin, hcapacity, List.rtake_concat_succ,
          rtake_of_length_le (length_rtake_le order room)] at htrimmed
        rw [List.erase_of_not_mem (h.not_mem hget), List.rtake_concat_succ]
        exact htrimmed
  · -- there is no room for a single entry, and so there is none
    rw [admits, Bool.and_eq_true, decide_eq_true_iff, decide_eq_true_iff] at hadmits
    have hzero : capacity = 0 := by omega
    obtain rfl : order = [] := List.eq_nil_of_length_eq_zero (by omega)
    rw [Store.put, if_neg (by rwa [admits, Bool.and_eq_true, decide_eq_true_iff,
      decide_eq_true_iff]), hzero, List.rtake_zero]
    exact hzero ▸ h.remove key

/-- What an action makes of the order of use. -/
theorem Pages.act (h : s.Pages capacity order) (hfits : order.length ≤ capacity)
    {action : Action K V} (hpaging : action.IsPaging) :
    (s.act action).Pages capacity (reorder capacity order action) := by
  cases hpaging with
  | put hsize => exact h.put hfits hsize _ _ _ _ _
  | touch => exact h.touch _ _
  | remove => exact h.remove _

end BoundedCache.Store
