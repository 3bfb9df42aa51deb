import BoundedCache.Store
import BoundedCache.Proofs.Policy.Contract

/-!
# The store and its policy agree

`Agrees` is the invariant of the store: keys are distinct, the policy holds the key of
each slot at the index of that slot and nothing else, and the volume kept along is the
sum of the sizes.

All operations change the slots in one of three ways: a slot goes, a slot is replaced by
one of the same key, a slot is appended.  `Agrees.drop`, `Agrees.swap` and
`Agrees.append` say for each what the policy must do for the invariant to hold again,
and what becomes of the entries (`get?`) and of the volume.  The volume lemmas are
equations between sums, which a subtraction below zero would break.
-/

namespace BoundedCache.Store

variable {K V : Type}

/-! ## Slots -/

/-- No key has two slots. -/
def Distinct (slots : List (Slot K V)) : Prop := (slots.map (·.entry.key)).Nodup

/-- The entries by key. -/
def byKey (slots : List (Slot K V)) : List (K × Entry K V) :=
  slots.map fun slot => (slot.entry.key, slot.entry)

/-- The keys by index. -/
def byIndex (slots : List (Slot K V)) : List (Index × K) :=
  slots.map fun slot => (slot.index, slot.entry.key)

/-- The sum of the sizes. -/
def total (entries : List (Entry K V)) : Nat := (entries.map (·.size)).foldr (· + ·) 0

section

variable {slots slots' : List (Slot K V)} {slot new : Slot K V} {key : K}

@[simp] theorem byKey_cons : byKey (slot :: slots) = (slot.entry.key, slot.entry) :: byKey slots :=
  rfl

@[simp] theorem byIndex_cons :
    byIndex (slot :: slots) = (slot.index, slot.entry.key) :: byIndex slots := rfl

@[simp] theorem total_nil : total ([] : List (Entry K V)) = 0 := rfl

@[simp] theorem total_cons (e : Entry K V) (entries : List (Entry K V)) :
    total (e :: entries) = e.size + total entries := rfl

@[simp] theorem total_append (entries entries' : List (Entry K V)) :
    total (entries ++ entries') = total entries + total entries' := by
  induction entries with
  | nil => rw [List.nil_append, total_nil, Nat.zero_add]
  | cons e rest ih => rw [List.cons_append, total_cons, total_cons, ih, Nat.add_assoc]

theorem total_perm {entries entries' : List (Entry K V)} (h : entries.Perm entries') :
    total entries = total entries' := (h.map _).foldr_eq 0

theorem Distinct.perm (h : Distinct slots) (hperm : slots.Perm slots') : Distinct slots' :=
  (hperm.map _).nodup h

theorem Distinct.key_ne (h : Distinct (slot :: slots)) (hmem : new ∈ slots) :
    new.entry.key ≠ slot.entry.key := by
  obtain ⟨hnot, -⟩ := List.nodup_cons.mp h
  intro heq
  exact hnot (List.mem_map.mpr ⟨new, hmem, heq⟩)

variable [DecidableEq K]

theorem Distinct.find?_eq_some (h : Distinct slots) :
    slots.find? (fun slot => slot.entry.key = key) = some slot ↔
      slot ∈ slots ∧ slot.entry.key = key := by
  constructor
  · intro hfind
    exact ⟨List.mem_of_find?_eq_some hfind, by simpa using List.find?_some hfind⟩
  · rintro ⟨hmem, rfl⟩
    obtain ⟨left, right, rfl⟩ := List.append_of_mem hmem
    have hleft : ∀ other ∈ left, other.entry.key ≠ slot.entry.key := fun other hother =>
      (h.perm List.perm_middle).key_ne (List.mem_append_left _ hother)
    rw [List.find?_append, List.find?_eq_none.mpr (by simpa using hleft)]
    simp

/-- The slot of a key is one of the slots; the others are those without the key. -/
theorem Distinct.perm_without (h : Distinct slots) (hmem : slot ∈ slots) :
    slots.Perm (slot :: without slots slot.entry.key) := by
  obtain ⟨left, right, rfl⟩ := List.append_of_mem hmem
  have hothers : ∀ other ∈ left ++ right, other.entry.key ≠ slot.entry.key := fun other hother =>
    (h.perm List.perm_middle).key_ne hother
  have hsame : without (left ++ slot :: right) slot.entry.key = left ++ right := by
    have hleft := List.filter_eq_self.mpr fun other hother =>
      decide_eq_true (hothers other (List.mem_append_left right hother))
    have hright := List.filter_eq_self.mpr fun other hother =>
      decide_eq_true (hothers other (List.mem_append_right left hother))
    rw [without, List.filter_append, List.filter_cons_of_neg (by simp), hleft, hright]
  rw [hsame]
  exact List.perm_middle

/-- Replacing the slot of a key leaves the other slots. -/
theorem Distinct.perm_replacing (h : Distinct slots) (hmem : slot ∈ slots)
    (hkey : new.entry.key = slot.entry.key) :
    (replacing slots new).Perm (new :: without slots slot.entry.key) := by
  refine ((h.perm_without hmem).map _).trans ?_
  have hothers : ∀ other ∈ without slots slot.entry.key, other.entry.key ≠ new.entry.key := by
    intro other hother
    rw [hkey]
    simpa using (List.mem_filter.mp hother).2
  rw [List.map_cons, if_pos hkey.symm]
  refine List.Perm.cons new (List.Perm.of_eq ?_)
  refine (List.map_congr_left fun other hother => ?_).trans (List.map_id _)
  exact if_neg (hothers other hother)

end

/-! ## The invariant -/

variable {s t : Store K V} {key : K} {slot new : Slot K V}

/-- The slots, the policy and the volume say the same. -/
structure Agrees (s : Store K V) : Prop where
  sound : s.policy.Sound
  distinct : Distinct s.slots
  indexed : Enumerates (byIndex s.slots) s.policy.peek?
  volume_eq : s.volume = total s.entries

theorem Agrees.peek?_index (h : s.Agrees) (hmem : slot ∈ s.slots) :
    s.policy.peek? slot.index = some slot.entry.key :=
  (h.indexed.mem_iff _ _).mp (List.mem_map.mpr ⟨slot, hmem, rfl⟩)

/-- A victim of the policy has an entry. -/
theorem Agrees.exists_slot (h : s.Agrees) {i : Index} (hpeek : s.policy.peek? i = some key) :
    ∃ slot ∈ s.slots, slot.index = i ∧ slot.entry.key = key := by
  obtain ⟨slot, hmem, heq⟩ := List.mem_map.mp ((h.indexed.mem_iff i key).mpr hpeek)
  obtain ⟨rfl, rfl⟩ := Prod.mk.inj heq
  exact ⟨slot, hmem, rfl, rfl⟩

/-- The limits are nothing that has to agree. -/
theorem Agrees.withLimits (h : s.Agrees) (maxEntries maxVolume : Nat) :
    { s with maxEntries := maxEntries, maxVolume := maxVolume }.Agrees :=
  ⟨h.sound, h.distinct, h.indexed, h.volume_eq⟩

/-- Nor is how often the slots have been gone through. -/
theorem Agrees.withWalks (h : s.Agrees) (walks : Nat) : { s with walks := walks }.Agrees :=
  ⟨h.sound, h.distinct, h.indexed, h.volume_eq⟩

/-- One store comes from another by taking in some entries and giving others away: the
sizes balance, and the limits stay.  Both balances are equations between natural numbers,
so no subtraction on the way was cut off at zero. -/
structure Moves (s : Store K V) (came went : List (Entry K V)) (t : Store K V) : Prop where
  agrees : t.Agrees
  size_eq : t.size + went.length = s.size + came.length
  volume_eq : t.volume + total went = s.volume + total came
  maxEntries_eq : t.maxEntries = s.maxEntries
  maxVolume_eq : t.maxVolume = s.maxVolume
  yielding : s.policy.Yielding → t.policy.Yielding

theorem Agrees.moves (h : s.Agrees) : Moves s [] [] s := ⟨h, rfl, rfl, rfl, rfl, id⟩

theorem Moves.trans {u : Store K V} {came came' went went' : List (Entry K V)}
    (h : Moves s came went t) (h' : Moves t came' went' u) :
    Moves s (came ++ came') (went ++ went') u where
  agrees := h'.agrees
  size_eq := by
    have hsize := h.size_eq
    have hsize' := h'.size_eq
    rw [List.length_append, List.length_append]
    omega
  volume_eq := by
    have hvolume := h.volume_eq
    have hvolume' := h'.volume_eq
    rw [total_append, total_append]
    omega
  maxEntries_eq := h'.maxEntries_eq.trans h.maxEntries_eq
  maxVolume_eq := h'.maxVolume_eq.trans h.maxVolume_eq
  yielding := fun hyield => h'.yielding (h.yielding hyield)

variable [DecidableEq K]

theorem slot?_eq_some (h : s.Agrees) :
    s.slot? key = some slot ↔ slot ∈ s.slots ∧ slot.entry.key = key :=
  h.distinct.find?_eq_some

theorem get?_eq_slot? (s : Store K V) (key : K) : s.get? key = (s.slot? key).map (·.entry) := rfl

theorem get?_of_slot? {slot? : Option (Slot K V)} (hslot : s.slot? key = slot?) :
    s.get? key = slot?.map (·.entry) := by
  rw [get?_eq_slot?, hslot]

/-- The entries are found by their keys. -/
theorem enumerates_get? (h : Distinct s.slots) : Enumerates (byKey s.slots) s.get? where
  nodup := by
    rw [byKey, List.map_map]
    exact h
  mem_iff key e := by
    simp only [byKey, List.mem_map, Prod.mk.injEq, get?_eq_slot?, Option.map_eq_some_iff, slot?,
      h.find?_eq_some]
    constructor
    · rintro ⟨slot, hmem, hkey, rfl⟩
      exact ⟨slot, ⟨hmem, hkey⟩, rfl⟩
    · rintro ⟨slot, ⟨hmem, hkey⟩, rfl⟩
      exact ⟨slot, hmem, hkey, rfl⟩

/-- An entry is found under its own key. -/
theorem key_of_get? {e : Entry K V} (hget : s.get? key = some e) : e.key = key := by
  obtain ⟨slot, hslot, rfl⟩ := Option.map_eq_some_iff.mp hget
  simpa using List.find?_some hslot

/-- Every entry is part of the volume. -/
theorem Agrees.size_le (h : s.Agrees) (hmem : slot ∈ s.slots) : slot.entry.size ≤ s.volume := by
  rw [h.volume_eq, entries, total_perm ((h.distinct.perm_without hmem).map _), List.map_cons,
    total_cons]
  exact Nat.le_add_right _ _

/-- A slot goes, with its element of the policy. -/
theorem Agrees.drop (h : s.Agrees) (hmem : slot ∈ s.slots) {policy : Policy K}
    (hfollows : Policy.Follows s.policy policy)
    (hpeek : policy.peek? = Function.update s.policy.peek? slot.index none) :
    let t := { s with
      slots := without s.slots slot.entry.key
      policy := policy
      volume := s.volume - slot.entry.size }
    Moves s [] [slot.entry] t ∧ t.get? = Function.update s.get? slot.entry.key none := by
  intro t
  have hperm := h.distinct.perm_without hmem
  have hdistinct : Distinct t.slots := (List.nodup_cons.mp (h.distinct.perm hperm)).2
  have htotal : total s.entries = slot.entry.size + total t.entries :=
    total_perm (hperm.map _)
  have hvolume := h.volume_eq
  have htvolume : t.volume = s.volume - slot.entry.size := rfl
  refine ⟨⟨⟨hfollows.sound, hdistinct, ?_, ?_⟩, ?_, ?_, rfl, rfl, hfollows.yielding⟩, ?_⟩
  · rw [show t.policy.peek? = _ from hpeek]
    exact (h.indexed.of_perm (hperm.map _)).erase
  · -- the size of the slot is part of the volume, so it can be subtracted
    omega
  · exact hperm.length_eq.symm
  · rw [total_cons, total_nil]
    omega
  · have hentries := (enumerates_get? h.distinct).of_perm (hperm.map _)
    exact (enumerates_get? hdistinct).ext hentries.erase

/-- A slot is replaced by another of the same key. -/
theorem Agrees.swap (h : s.Agrees) (hmem : slot ∈ s.slots) (new : Slot K V)
    (hkey : new.entry.key = slot.entry.key) {policy : Policy K}
    (hfollows : Policy.Follows s.policy policy)
    (hpeek : Adds (Function.update s.policy.peek? slot.index none) slot.entry.key new.index
      policy.peek?)
    {volume : Nat} (hvolume : volume + slot.entry.size = s.volume + new.entry.size) :
    let t := { s with slots := replacing s.slots new, policy := policy, volume := volume }
    Moves s [new.entry] [slot.entry] t ∧
      t.get? = Function.update s.get? slot.entry.key (some new.entry) := by
  intro t
  have hold := h.distinct.perm_without hmem
  have hnew : t.slots.Perm (new :: without s.slots slot.entry.key) :=
    h.distinct.perm_replacing hmem hkey
  have hdistinct : Distinct t.slots := by
    refine Distinct.perm ?_ hnew.symm
    have hbefore := h.distinct.perm hold
    rw [Distinct, List.map_cons] at hbefore ⊢
    rwa [hkey]
  have htotal : total s.entries = slot.entry.size + total
      ((without s.slots slot.entry.key).map (·.entry)) := total_perm (hold.map _)
  have htotal' : total t.entries = new.entry.size + total
      ((without s.slots slot.entry.key).map (·.entry)) := total_perm (hnew.map _)
  have hsum := h.volume_eq
  have htvolume : t.volume = volume := rfl
  refine ⟨⟨⟨hfollows.sound, hdistinct, ?_, ?_⟩, ?_, ?_, rfl, rfl, hfollows.yielding⟩, ?_⟩
  · rw [show t.policy.peek? = _ from hpeek.after]
    refine Enumerates.of_perm ?_ (hnew.map _).symm
    rw [List.map_cons, hkey]
    exact (h.indexed.of_perm (hold.map _)).erase.insert hpeek.fresh _
  · omega
  · exact congrArg (· + 1) (hnew.length_eq.trans hold.length_eq.symm)
  · rw [total_cons, total_nil, total_cons, total_nil]
    omega
  · have hentries := (enumerates_get? h.distinct).of_perm (hold.map _)
    refine (enumerates_get? hdistinct).ext (Enumerates.of_perm ?_ (hnew.map _).symm)
    rw [List.map_cons, hkey]
    exact hentries.set new.entry

/-- A slot is appended for a key that has none. -/
theorem Agrees.append (h : s.Agrees) (new : Slot K V) (hkey : s.get? new.entry.key = none)
    {policy : Policy K} (hfollows : Policy.Follows s.policy policy)
    (hpeek : Adds s.policy.peek? new.entry.key new.index policy.peek?) :
    let t := { s with
      slots := s.slots ++ [new]
      policy := policy
      volume := s.volume + new.entry.size }
    Moves s [new.entry] [] t ∧
      t.get? = Function.update s.get? new.entry.key (some new.entry) := by
  intro t
  have hperm : t.slots.Perm (new :: s.slots) := List.perm_append_singleton new s.slots
  have hentries : Enumerates (byKey (new :: s.slots))
      (Function.update s.get? new.entry.key (some new.entry)) :=
    (enumerates_get? h.distinct).insert hkey new.entry
  have hdistinct : Distinct t.slots := by
    refine Distinct.perm ?_ hperm.symm
    have hnodup := hentries.nodup
    rwa [byKey, List.map_map] at hnodup
  have htotal : total t.entries = new.entry.size + total s.entries := total_perm (hperm.map _)
  have hsum := h.volume_eq
  have htvolume : t.volume = s.volume + new.entry.size := rfl
  refine ⟨⟨⟨hfollows.sound, hdistinct, ?_, ?_⟩, ?_, ?_, rfl, rfl, hfollows.yielding⟩, ?_⟩
  · have hindexed : Enumerates (byIndex (new :: s.slots))
        (Function.update s.policy.peek? new.index (some new.entry.key)) :=
      h.indexed.insert hpeek.fresh new.entry.key
    rw [show t.policy.peek? = _ from hpeek.after]
    exact hindexed.of_perm (hperm.map _).symm
  · omega
  · exact hperm.length_eq
  · rw [total_cons, total_nil]
    omega
  · exact (enumerates_get? hdistinct).ext (hentries.of_perm (hperm.map _).symm)

end BoundedCache.Store
