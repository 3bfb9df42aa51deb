import BoundedCache.Slab
import BoundedCache.Proofs.Enumeration

/-!
# What a slab holds

A slab is read through `get?`, the partial function from an index to the element
there, and `toList` enumerates that function whatever the cells are
(`enumerates_toList`).  The operations change it at one index: `get?_insert`,
`get?_remove` and `get?_modify` say how, and `clear` leaves it without arguments.

For `insert` this needs the free list to be sound.  `FreeList s chain` says that the
chain threaded through the vacant cells is `chain`, that it visits every vacant slot
once and nothing else; `WellFormed` adds that the live elements are counted right.
Every operation keeps both, so they hold after every run.
-/

namespace BoundedCache

/-- Following the vacant cells from a first slot visits the given slots and ends. -/
inductive FreeChain {α : Type} (cells : Array (Cell α)) : Option Nat → List Nat → Prop
  | done : FreeChain cells none []
  | step {slot : Nat} {next : Option Nat} {generation : UInt32} {rest : List Nat} :
      cells[slot]? = some (.vacant next generation) → FreeChain cells next rest →
      FreeChain cells (some slot) (slot :: rest)

/-- A chain reads only the cells that it visits. -/
theorem FreeChain.frame {α : Type} {cells cells' : Array (Cell α)} {start : Option Nat}
    {chain : List Nat} (h : FreeChain cells start chain)
    (hsame : ∀ slot ∈ chain, cells'[slot]? = cells[slot]?) : FreeChain cells' start chain := by
  induction h with
  | done => exact .done
  | step hcell _ ih =>
      refine .step ((hsame _ List.mem_cons_self).trans hcell) (ih fun slot hslot => ?_)
      exact hsame slot (List.mem_cons_of_mem _ hslot)

namespace Slab

variable {α : Type} {s : Slab α} {i j : Index} {value : α}

/-! ## Reading -/

theorem get?_eq_some :
    s.get? i = some value ↔ s.cells[i.slot]? = some (.occupied i.generation value) := by
  unfold get?
  split
  · rename_i generation other hcell
    rw [hcell]
    by_cases hgeneration : generation = i.generation
    · simp [hgeneration]
    · simp [hgeneration]
  · rename_i hcell
    simp only [reduceCtorEq, false_iff]
    exact hcell i.generation value

/-- No element lives in a slot that is vacant or out of range. -/
theorem get?_eq_none_of_cell (hcell : ∀ generation value,
    s.cells[i.slot]? ≠ some (.occupied generation value)) : s.get? i = none := by
  cases hget : s.get? i with
  | none => rfl
  | some value => exact absurd (get?_eq_some.mp hget) (hcell _ _)

theorem lt_size_of_cell {slot : Nat} {cell : Cell α} (hcell : s.cells[slot]? = some cell) :
    slot < s.cells.size :=
  (Array.getElem?_eq_some_iff.mp hcell).1

theorem slot_lt_of_get? (hget : s.get? i = some value) : i.slot < s.slots :=
  lt_size_of_cell (get?_eq_some.mp hget)

/-- The live element of a slot, with its index. -/
def entryAt? (s : Slab α) (slot : Nat) : Option (Index × α) :=
  match s.cells[slot]? with
  | some (.occupied generation value) => some (⟨slot, generation⟩, value)
  | _ => none

theorem toList_eq (s : Slab α) : s.toList = (List.range s.slots).filterMap s.entryAt? := rfl

theorem entryAt?_eq_some {slot : Nat} :
    s.entryAt? slot = some (i, value) ↔ i.slot = slot ∧ s.get? i = some value := by
  unfold entryAt?
  constructor
  · intro hentry
    split at hentry
    · rename_i generation other hcell
      simp only [Option.some.injEq, Prod.mk.injEq] at hentry
      obtain ⟨rfl, rfl⟩ := hentry
      exact ⟨rfl, get?_eq_some.mpr hcell⟩
    · exact absurd hentry (by simp)
  · rintro ⟨rfl, hget⟩
    rw [get?_eq_some.mp hget]

theorem indexAt?_eq (s : Slab α) (slot : Nat) :
    s.indexAt? slot = (s.entryAt? slot).map Prod.fst := by
  unfold indexAt? entryAt?
  split <;> simp_all

/-- The index that a slot shows is the live one. -/
theorem indexAt?_eq_some {slot : Nat} :
    s.indexAt? slot = some i ↔ i.slot = slot ∧ (s.get? i).isSome = true := by
  rw [indexAt?_eq, Option.map_eq_some_iff, Option.isSome_iff_exists]
  constructor
  · rintro ⟨⟨j, value⟩, hentry, rfl⟩
    obtain ⟨hslot, hget⟩ := entryAt?_eq_some.mp hentry
    exact ⟨hslot, value, hget⟩
  · rintro ⟨hslot, value, hget⟩
    exact ⟨(i, value), entryAt?_eq_some.mpr ⟨hslot, hget⟩, rfl⟩

theorem mem_toList : (i, value) ∈ s.toList ↔ s.get? i = some value := by
  simp only [toList_eq, List.mem_filterMap, List.mem_range, entryAt?_eq_some]
  constructor
  · rintro ⟨slot, -, -, hget⟩
    exact hget
  · exact fun hget => ⟨i.slot, slot_lt_of_get? hget, rfl, hget⟩

/-- The live elements are listed once each. -/
theorem enumerates_toList (s : Slab α) : Enumerates s.toList s.get? where
  nodup := by
    rw [toList_eq, List.map_filterMap]
    refine List.Nodup.filterMap ?_ List.nodup_range
    intro slot slot' i hi hi'
    simp only [Option.mem_def, Option.map_eq_some_iff, Prod.exists, entryAt?_eq_some] at hi hi'
    obtain ⟨j, a, ⟨rfl, -⟩, rfl⟩ := hi
    obtain ⟨j', a', ⟨rfl, -⟩, rfl⟩ := hi'
    rfl
  mem_iff _ _ := mem_toList

/-- Two live indices with the same slot are the same. -/
theorem index_eq_of_slot_eq {a b : α} (hi : s.get? i = some a) (hj : s.get? j = some b)
    (hslot : i.slot = j.slot) : i = j := by
  have hi := get?_eq_some.mp hi
  rw [hslot, get?_eq_some.mp hj] at hi
  simp only [Option.some.injEq, Cell.occupied.injEq] at hi
  cases i
  cases j
  simp_all

theorem get?_eq_none_of_slot_eq (hi : s.get? i = some value) (hslot : j.slot = i.slot)
    (hne : j ≠ i) : s.get? j = none := by
  cases hj : s.get? j with
  | none => rfl
  | some other => exact absurd (index_eq_of_slot_eq hj hi hslot) hne

theorem get?_congr {t : Slab α} (hcell : t.cells[j.slot]? = s.cells[j.slot]?) :
    t.get? j = s.get? j := by
  unfold get?
  rw [hcell]

/-- Rewriting one cell changes the partial function at one index, if no other index
with that slot is live before or after. -/
theorem get?_eq_update {t : Slab α} {new : Option α}
    (hother : ∀ slot, slot ≠ i.slot → t.cells[slot]? = s.cells[slot]?)
    (hbefore : ∀ j, j.slot = i.slot → j ≠ i → s.get? j = none)
    (hafter : ∀ j, j.slot = i.slot → j ≠ i → t.get? j = none) (hnew : t.get? i = new) :
    t.get? = Function.update s.get? i new := by
  funext j
  by_cases hj : j = i
  · rw [hj, Function.update_self, hnew]
  · rw [Function.update_of_ne hj]
    by_cases hslot : j.slot = i.slot
    · rw [hafter j hslot hj, hbefore j hslot hj]
    · exact get?_congr (hother _ hslot)

/-! ## The free list -/

/-- A slot that is there and holds no element. -/
def Vacant (s : Slab α) (slot : Nat) : Prop :=
  ∃ next generation, s.cells[slot]? = some (.vacant next generation)

/-- The free list of the slab is `chain`: it visits every vacant slot once, and ends. -/
structure FreeList (s : Slab α) (chain : List Nat) : Prop where
  linked : FreeChain s.cells s.free chain
  nodup : chain.Nodup
  mem_iff : ∀ slot, slot ∈ chain ↔ s.Vacant slot

/-- The slab is as its operations leave it: the free list is sound, and `size` counts
the live elements. -/
structure WellFormed (s : Slab α) : Prop where
  freeList : ∃ chain, s.FreeList chain
  size_eq : s.size = s.toList.length

theorem wellFormed_empty : (empty : Slab α).WellFormed where
  freeList := ⟨[], .done, List.nodup_nil, by simp [Vacant, empty]⟩
  size_eq := rfl

/-- The free list visits vacant slots only, so its first slot is vacant. -/
theorem FreeList.vacant_of_free {slot : Nat} {chain : List Nat} (h : s.FreeList chain)
    (hfree : s.free = some slot) :
    ∃ next generation rest, chain = slot :: rest ∧
      s.cells[slot]? = some (.vacant next generation) ∧ FreeChain s.cells next rest := by
  have hlinked := h.linked
  rw [hfree] at hlinked
  cases hlinked with
  | step hcell hrest => exact ⟨_, _, _, rfl, hcell, hrest⟩

/-- Without a first vacant slot there is no vacant slot at all. -/
theorem FreeList.not_vacant_of_free_eq_none {chain : List Nat} (h : s.FreeList chain)
    (hfree : s.free = none) (slot : Nat) : ¬ s.Vacant slot := by
  have hlinked := h.linked
  rw [hfree] at hlinked
  cases hlinked with
  | done => exact fun hvacant => List.not_mem_nil ((h.mem_iff slot).mpr hvacant)

/-! ## Insertion -/

theorem insert_of_free_eq_none (hfree : s.free = none) (value : α) :
    s.insert value = (⟨s.slots, 0⟩,
      { s with cells := s.cells.push (.occupied 0 value), size := s.size + 1 }) := by
  unfold insert slots
  rw [hfree]

theorem insert_of_vacant {slot : Nat} {next : Option Nat} {generation : UInt32}
    (hfree : s.free = some slot) (hcell : s.cells[slot]? = some (.vacant next generation))
    (value : α) :
    s.insert value = (⟨slot, generation⟩,
      { cells := s.cells.setIfInBounds slot (.occupied generation value)
        free := next
        size := s.size + 1 }) := by
  unfold insert
  rw [hfree]
  simp only [hcell]

/-- An element goes to an index at which nothing lived, and changes nothing else. -/
theorem WellFormed.get?_insert (h : s.WellFormed) (value : α) :
    s.get? (s.insert value).1 = none ∧
      (s.insert value).2.get? = Function.update s.get? (s.insert value).1 (some value) := by
  obtain ⟨chain, hchain⟩ := h.freeList
  cases hfree : s.free with
  | none =>
      -- the element gets a new slot, which no index could reach before
      rw [insert_of_free_eq_none hfree]
      have hnone : ∀ j : Index, j.slot = s.slots → s.get? j = none := by
        intro j hj
        refine get?_eq_none_of_cell fun _ _ => ?_
        simp [hj, slots]
      have hnew : Slab.get?
          { s with cells := s.cells.push (.occupied 0 value), size := s.size + 1 } ⟨s.slots, 0⟩ =
            some value := by
        rw [get?_eq_some]
        simp [slots]
      refine ⟨hnone _ rfl, get?_eq_update ?_ (fun j hj _ => hnone j hj) ?_ hnew⟩
      · intro slot hslot
        simp only [slots] at hslot
        rw [Array.getElem?_push, if_neg hslot]
      · exact fun j hj hne => get?_eq_none_of_slot_eq hnew hj hne
  | some slot =>
      obtain ⟨next, generation, rest, -, hcell, -⟩ := hchain.vacant_of_free hfree
      -- the element gets a vacant slot, where no generation is live
      rw [insert_of_vacant hfree hcell]
      have hnone : ∀ j : Index, j.slot = slot → s.get? j = none := by
        intro j hj
        refine get?_eq_none_of_cell fun _ _ => ?_
        simp [hj, hcell]
      have hnew : Slab.get?
          { cells := s.cells.setIfInBounds slot (.occupied generation value)
            free := next
            size := s.size + 1 } ⟨slot, generation⟩ = some value := by
        rw [get?_eq_some]
        simp [lt_size_of_cell hcell]
      refine ⟨hnone _ rfl, get?_eq_update ?_ (fun j hj _ => hnone j hj) ?_ hnew⟩
      · exact fun other hother => Array.getElem?_setIfInBounds_ne (Ne.symm hother)
      · exact fun j hj hne => get?_eq_none_of_slot_eq hnew hj hne

/-- The free list after an insertion is what followed its first slot. -/
theorem FreeList.insert {chain : List Nat} (h : s.FreeList chain) (value : α) :
    (s.insert value).2.FreeList chain.tail := by
  cases hfree : s.free with
  | none =>
      have hlinked := h.linked
      rw [hfree] at hlinked
      cases hlinked
      rw [insert_of_free_eq_none hfree]
      refine ⟨by simpa [hfree] using FreeChain.done, List.nodup_nil, fun slot => ?_⟩
      simp only [List.tail_nil, List.not_mem_nil, false_iff]
      rintro ⟨next, generation, hcell⟩
      rw [Array.getElem?_push] at hcell
      split at hcell
      · simp at hcell
      · exact h.not_vacant_of_free_eq_none hfree slot ⟨next, generation, hcell⟩
  | some slot =>
      obtain ⟨next, generation, rest, rfl, hcell, hrest⟩ := h.vacant_of_free hfree
      rw [insert_of_vacant hfree hcell]
      obtain ⟨hnot, hnodup⟩ := List.nodup_cons.mp h.nodup
      refine ⟨hrest.frame fun other hother => ?_, hnodup, fun other => ?_⟩
      · refine Array.getElem?_setIfInBounds_ne ?_
        rintro rfl
        exact hnot hother
      · by_cases hother : other = slot
        · subst hother
          simp [hnot, Vacant, lt_size_of_cell hcell]
        · have := h.mem_iff other
          simp only [List.mem_cons, hother, false_or] at this
          simp only [List.tail_cons, this, Vacant, Array.getElem?_setIfInBounds_ne (Ne.symm hother)]

theorem size_insert (h : s.WellFormed) (value : α) :
    (s.insert value).2.size = s.size + 1 := by
  obtain ⟨chain, hchain⟩ := h.freeList
  cases hfree : s.free with
  | none => rw [insert_of_free_eq_none hfree]
  | some slot =>
      obtain ⟨next, generation, rest, -, hcell, -⟩ := hchain.vacant_of_free hfree
      rw [insert_of_vacant hfree hcell]

theorem slots_le_insert (s : Slab α) (value : α) : s.slots ≤ (s.insert value).2.slots := by
  unfold insert slots
  split
  · simp
  · split
    · simp
    · exact Nat.le_refl _

theorem WellFormed.insert (h : s.WellFormed) (value : α) : (s.insert value).2.WellFormed where
  freeList := by
    obtain ⟨chain, hchain⟩ := h.freeList
    exact ⟨chain.tail, hchain.insert value⟩
  size_eq := by
    obtain ⟨hfresh, hget⟩ := h.get?_insert value
    have hlist := (s.enumerates_toList.insert hfresh value).perm
      (hget ▸ (s.insert value).2.enumerates_toList)
    rw [size_insert h, h.size_eq, ← hlist.length_eq, List.length_cons]

/-! ## Removal -/

theorem remove_of_get? (hget : s.get? i = some value) :
    s.remove i = (some value,
      { cells := s.cells.setIfInBounds i.slot (.vacant s.free (i.generation + 1))
        free := some i.slot
        size := s.size - 1 }) := by
  unfold remove
  rw [hget]

theorem remove_of_stale (hget : s.get? i = none) : s.remove i = (none, s) := by
  unfold remove
  rw [hget]

/-- What is removed is what was there, and nothing else goes. -/
theorem get?_remove (s : Slab α) (i : Index) :
    (s.remove i).1 = s.get? i ∧ (s.remove i).2.get? = Function.update s.get? i none := by
  cases hget : s.get? i with
  | none =>
      rw [remove_of_stale hget]
      refine ⟨rfl, ?_⟩
      rw [← hget, Function.update_eq_self]
  | some value =>
      rw [remove_of_get? hget]
      have hbound := lt_size_of_cell (get?_eq_some.mp hget)
      have hafter : ∀ j : Index, j.slot = i.slot → Slab.get?
          { cells := s.cells.setIfInBounds i.slot (.vacant s.free (i.generation + 1))
            free := some i.slot
            size := s.size - 1 } j = none := by
        intro j hj
        refine get?_eq_none_of_cell fun _ _ => ?_
        simp [hj, hbound]
      refine ⟨rfl, get?_eq_update ?_ ?_ (fun j hj _ => hafter j hj) (hafter i rfl)⟩
      · exact fun slot hslot => Array.getElem?_setIfInBounds_ne (Ne.symm hslot)
      · exact fun j hj hne => get?_eq_none_of_slot_eq hget hj hne

/-- A slot that is vacated becomes the first of the free list. -/
theorem FreeList.remove {chain : List Nat} (h : s.FreeList chain)
    (hget : s.get? i = some value) : (s.remove i).2.FreeList (i.slot :: chain) := by
  rw [remove_of_get? hget]
  have hcell := get?_eq_some.mp hget
  have hbound := lt_size_of_cell hcell
  -- the slot was live, so the free list did not visit it
  have hnot : i.slot ∉ chain := by
    rw [h.mem_iff]
    rintro ⟨next, generation, hvacant⟩
    rw [hcell] at hvacant
    exact absurd hvacant (by simp)
  have hfirst : (s.cells.setIfInBounds i.slot (.vacant s.free (i.generation + 1)))[i.slot]? =
      some (.vacant s.free (i.generation + 1)) := by
    simp [hbound]
  refine ⟨.step hfirst (h.linked.frame fun other hother => ?_),
    List.nodup_cons.mpr ⟨hnot, h.nodup⟩, fun other => ?_⟩
  · refine Array.getElem?_setIfInBounds_ne ?_
    rintro rfl
    exact hnot hother
  · by_cases hother : other = i.slot
    · subst hother
      simp [Vacant, hbound]
    · simp only [List.mem_cons, hother, false_or, h.mem_iff, Vacant,
        Array.getElem?_setIfInBounds_ne (Ne.symm hother)]

theorem WellFormed.remove (h : s.WellFormed) (i : Index) : (s.remove i).2.WellFormed := by
  cases hget : s.get? i with
  | none => rwa [remove_of_stale hget]
  | some value =>
      obtain ⟨chain, hchain⟩ := h.freeList
      refine ⟨⟨_, hchain.remove hget⟩, ?_⟩
      obtain ⟨rest, hrest⟩ := s.enumerates_toList.exists_perm_cons hget
      have hlist := (s.enumerates_toList.of_perm hrest).erase.perm
        ((s.get?_remove i).2 ▸ (s.remove i).2.enumerates_toList)
      rw [← hlist.length_eq, remove_of_get? hget, h.size_eq, hrest.length_eq]
      rfl

/-! ## Change in place -/

theorem modify_of_get? (hget : s.get? i = some value) (change : α → α) :
    s.modify i change =
      { s with cells := s.cells.setIfInBounds i.slot (.occupied i.generation (change value)) } := by
  unfold modify
  rw [hget]

theorem modify_of_stale (hget : s.get? i = none) (change : α → α) : s.modify i change = s := by
  unfold modify
  rw [hget]

theorem get?_modify (s : Slab α) (i : Index) (change : α → α) :
    (s.modify i change).get? = Function.update s.get? i ((s.get? i).map change) := by
  cases hget : s.get? i with
  | none =>
      rw [modify_of_stale hget, Option.map_none, ← hget, Function.update_eq_self]
  | some value =>
      have hbound := lt_size_of_cell (get?_eq_some.mp hget)
      rw [modify_of_get? hget]
      have hnew : Slab.get? { s with
          cells := s.cells.setIfInBounds i.slot (.occupied i.generation (change value)) } i =
            some (change value) := by
        rw [get?_eq_some]
        simp [hbound]
      refine get?_eq_update ?_ ?_ ?_ hnew
      · exact fun slot hslot => Array.getElem?_setIfInBounds_ne (Ne.symm hslot)
      · exact fun j hj hne => get?_eq_none_of_slot_eq hget hj hne
      · exact fun j hj hne => get?_eq_none_of_slot_eq hnew hj hne

theorem FreeList.modify {chain : List Nat} (h : s.FreeList chain) (i : Index)
    (change : α → α) : (s.modify i change).FreeList chain := by
  cases hget : s.get? i with
  | none => rwa [modify_of_stale hget]
  | some value =>
      have hcell := get?_eq_some.mp hget
      have hoccupied : ¬ s.Vacant i.slot := by
        rintro ⟨next, generation, hvacant⟩
        rw [hcell] at hvacant
        exact absurd hvacant (by simp)
      rw [modify_of_get? hget]
      refine ⟨h.linked.frame fun slot hslot => Array.getElem?_setIfInBounds_ne ?_, h.nodup,
        fun slot => (h.mem_iff slot).trans ?_⟩
      · rintro rfl
        exact hoccupied ((h.mem_iff _).mp hslot)
      · by_cases hslot : slot = i.slot
        · subst hslot
          simp only [hoccupied, false_iff]
          simp [Vacant, lt_size_of_cell hcell]
        · simp only [Vacant, Array.getElem?_setIfInBounds_ne (Ne.symm hslot)]

theorem size_modify (s : Slab α) (i : Index) (change : α → α) :
    (s.modify i change).size = s.size := by
  unfold modify
  split <;> rfl

theorem slots_modify (s : Slab α) (i : Index) (change : α → α) :
    (s.modify i change).slots = s.slots := by
  unfold modify slots
  split
  · rfl
  · simp

theorem WellFormed.modify (h : s.WellFormed) (i : Index) (change : α → α) :
    (s.modify i change).WellFormed where
  freeList := by
    obtain ⟨chain, hchain⟩ := h.freeList
    exact ⟨chain, hchain.modify i change⟩
  size_eq := by
    rw [size_modify, h.size_eq]
    cases hget : s.get? i with
    | none => rw [modify_of_stale hget]
    | some value =>
        obtain ⟨rest, hrest⟩ := s.enumerates_toList.exists_perm_cons hget
        have hlist := ((s.enumerates_toList.of_perm hrest).set (change value)).perm
          (by
            have hnew := (s.modify i change).enumerates_toList
            rwa [get?_modify, hget, Option.map_some] at hnew)
        rw [← hlist.length_eq, hrest.length_eq]
        rfl

/-! ## Clearing -/

/-- One step of `clear`: the element of a slot goes, if there is one. -/
def clearSlot (state : List α × Slab α) (slot : Nat) : List α × Slab α :=
  match state.2.indexAt? slot with
  | none => state
  | some i =>
      match state.2.remove i with
      | (some value, s) => (state.1 ++ [value], s)
      | (none, s) => (state.1, s)

theorem clear_eq (s : Slab α) : s.clear = (List.range s.slots).foldl clearSlot ([], s) := rfl

theorem clearSlot_of_vacant {drained : List α} {slot : Nat} (hentry : s.entryAt? slot = none) :
    clearSlot (drained, s) slot = (drained, s) := by
  simp only [clearSlot, indexAt?_eq, hentry, Option.map_none]

theorem clearSlot_of_live {drained : List α} {slot : Nat}
    (hentry : s.entryAt? slot = some (i, value)) :
    clearSlot (drained, s) slot = (drained ++ [value], (s.remove i).2) := by
  have hremove := remove_of_get? (entryAt?_eq_some.mp hentry).2
  simp only [clearSlot, indexAt?_eq, hentry, Option.map_some, hremove]

theorem slots_remove (s : Slab α) (i : Index) : (s.remove i).2.slots = s.slots := by
  unfold remove slots
  split
  · rfl
  · simp

/-- Clearing takes elements out, one by one, and does nothing else. -/
theorem clear_induction {motive : Slab α → Prop} (hstart : motive s)
    (hremove : ∀ t i, motive t → motive (t.remove i).2) : motive s.clear.2 := by
  have hslot : ∀ (state : List α × Slab α) (slot : Nat),
      motive state.2 → motive (clearSlot state slot).2 := by
    rintro ⟨drained, t⟩ slot ht
    cases hentry : t.entryAt? slot with
    | none => rwa [clearSlot_of_vacant hentry]
    | some entry =>
        rw [clearSlot_of_live hentry]
        exact hremove t entry.1 ht
  have hloop : ∀ (slots : List Nat) (state : List α × Slab α),
      motive state.2 → motive (slots.foldl clearSlot state).2 := by
    intro slots
    induction slots with
    | nil => exact fun _ => id
    | cons slot slots ih => exact fun state hstate => ih _ (hslot state slot hstate)
  rw [clear_eq]
  exact hloop _ _ hstart

theorem slots_clear (s : Slab α) : s.clear.2.slots = s.slots :=
  clear_induction (motive := fun t => t.slots = s.slots) rfl
    fun t i ht => (t.slots_remove i).trans ht

/-- The elements of a slot depend on nothing but the indices of that slot. -/
theorem entryAt?_congr {t : Slab α} {slot : Nat}
    (hget : ∀ i : Index, i.slot = slot → t.get? i = s.get? i) :
    t.entryAt? slot = s.entryAt? slot := by
  refine Option.ext fun ⟨i, value⟩ => ?_
  rw [entryAt?_eq_some, entryAt?_eq_some]
  constructor
  · rintro ⟨hslot, hi⟩
    exact ⟨hslot, hget i hslot ▸ hi⟩
  · rintro ⟨hslot, hi⟩
    exact ⟨hslot, (hget i hslot).trans hi⟩

/-- After the first `count` slots the elements of those are drained, their slots stand before the
vacant ones, the last one first, and all other elements are where they were. -/
theorem clear_upTo (h : s.WellFormed) (count : Nat) :
    ∃ t : Slab α, (List.range count).foldl clearSlot ([], s) =
        (((List.range count).filterMap s.entryAt?).map Prod.snd, t) ∧
      t.WellFormed ∧ (∀ i, t.get? i = if i.slot < count then none else s.get? i) ∧
      ∀ chain, s.FreeList chain → t.FreeList
        ((((List.range count).filterMap s.entryAt?).map (·.1.slot)).reverse ++ chain) := by
  -- slots ahead are untouched, so every step finds what was there at first
  induction count with
  | zero => exact ⟨s, rfl, h, by simp, fun _ => id⟩
  | succ count ih =>
      obtain ⟨t, hfold, hwf, hget, hchain⟩ := ih
      have hentry : t.entryAt? count = s.entryAt? count := by
        refine entryAt?_congr fun i hi => ?_
        rw [hget, if_neg (by omega)]
      rw [List.range_succ, List.foldl_append, hfold, List.foldl_cons, List.foldl_nil,
        List.filterMap_append, List.map_append, List.map_append]
      cases hcount : s.entryAt? count with
      | none =>
          rw [clearSlot_of_vacant (hentry.trans hcount)]
          refine ⟨t, by simp [hcount], hwf, fun i => ?_, by simpa [hcount] using hchain⟩
          rw [hget]
          by_cases hi : i.slot = count
          · have hnone : s.get? i = none := by
              cases hlive : s.get? i with
              | none => rfl
              | some value =>
                  have := entryAt?_eq_some.mpr ⟨hi, hlive⟩
                  rw [hcount] at this
                  exact absurd this (by simp)
            simp [hnone]
          · have : i.slot < count + 1 ↔ i.slot < count := by omega
            simp only [this]
      | some entry =>
          obtain ⟨i, value⟩ := entry
          have hlive := hentry.trans hcount
          rw [clearSlot_of_live hlive]
          obtain ⟨hi, hvalue⟩ := entryAt?_eq_some.mp hlive
          refine ⟨_, by simp [hcount], hwf.remove i, fun j => ?_,
            fun chain hs => by simpa [hcount] using (hchain chain hs).remove hvalue⟩
          rw [(t.get?_remove i).2]
          by_cases hj : j = i
          · rw [hj, Function.update_self, if_pos (by omega)]
          · rw [Function.update_of_ne hj]
            by_cases hslot : j.slot = count
            · rw [get?_eq_none_of_slot_eq hvalue (hslot.trans hi.symm) hj, if_pos (by omega)]
            · have : j.slot < count + 1 ↔ j.slot < count := by omega
              rw [hget]
              simp only [this]

/-- `clear` takes out all elements in slot order. -/
theorem WellFormed.clear (h : s.WellFormed) :
    s.clear.1 = s.toList.map Prod.snd ∧ s.clear.2.WellFormed ∧
      s.clear.2.get? = fun _ => none := by
  obtain ⟨t, hfold, hwf, hget, -⟩ := clear_upTo h s.slots
  rw [clear_eq, hfold, toList_eq]
  refine ⟨rfl, hwf, funext fun i => ?_⟩
  rw [hget]
  split
  · rfl
  · rename_i hslot
    cases hlive : s.get? i with
    | none => rfl
    | some value => exact absurd (slot_lt_of_get? hlive) hslot

/-- Clearing puts the slots that it empties before the vacant ones, the last one first. -/
theorem FreeList.clear {chain : List Nat} (hchain : s.FreeList chain) (h : s.WellFormed) :
    s.clear.2.FreeList ((s.toList.map (·.1.slot)).reverse ++ chain) := by
  obtain ⟨t, hfold, -, -, hfree⟩ := clear_upTo h s.slots
  rw [clear_eq, hfold, toList_eq]
  exact hfree chain hchain

/-! ## Runs -/

theorem WellFormed.act (h : s.WellFormed) (action : Action α) : (s.act action).WellFormed := by
  cases action with
  | insert value => exact h.insert value
  | remove i => exact h.remove i
  | set i value => exact h.modify i _
  | clear => exact h.clear.2.1

theorem WellFormed.run (h : s.WellFormed) (actions : List (Action α)) :
    (s.run actions).WellFormed := by
  induction actions generalizing s with
  | nil => exact h
  | cons action actions ih => exact ih (h.act action)

/-- Slots are never given up. -/
theorem slots_le_act (s : Slab α) (action : Action α) : s.slots ≤ (s.act action).slots := by
  cases action with
  | insert value => exact s.slots_le_insert value
  | remove i => exact Nat.le_of_eq (s.slots_remove i).symm
  | set i value => exact Nat.le_of_eq (s.slots_modify i _).symm
  | clear => exact Nat.le_of_eq s.slots_clear.symm

theorem slots_le_run (s : Slab α) (actions : List (Action α)) :
    s.slots ≤ (s.run actions).slots := by
  induction actions generalizing s with
  | nil => exact Nat.le_refl _
  | cons action actions ih => exact Nat.le_trans (s.slots_le_act action) (ih (s.act action))

end Slab

end BoundedCache
