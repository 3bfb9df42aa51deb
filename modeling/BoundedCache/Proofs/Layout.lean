import BoundedCache.Proofs.Slab

/-!
# How a slab uses its slots

Seen without its cells a slab is a `Layout`: the number of slots, the vacant ones in the order in
which they will be used, and the elements under their indices.  `Layout.Step` says what an
operation does to it.  An element goes to the first vacant slot, and to a new one only if none is
vacant; a slot that is vacated becomes the first; and clearing hands the elements out in slot
order, after which every slot is vacant.

The slab knows its vacant slots only from the free list, which is threaded through the vacant
cells.  `Layout.Describes` says that following it from its first slot meets the vacant slots of
the layout, each once, and ends; and that the count, the index of each slot and the list of all
elements are those of the layout too.

A slab whose free list went astray would have to stop: at a first vacant slot that is occupied, or
that is not there at all.  It would also have to stop at a cell that turns out vacant when its
element is taken out, at a count that falls below zero, and at a slot whose number does not fit
into an index.  The operations are written a second time with these stops (`Slab.perform?`), and
along a run none of them is reached, as long as slots can be numbered.
-/

namespace BoundedCache

variable {α : Type}

/-- Whether an element lives in the cell. -/
def Cell.isOccupied : Cell α → Bool
  | .vacant _ _ => false
  | .occupied _ _ => true

/-- Walking along the free list visits its slots, if there is fuel for all of them. -/
theorem FreeChain.freeSlotsFrom_eq {s : Slab α} {start : Option Nat} {chain : List Nat}
    (h : FreeChain s.cells start chain) {fuel : Nat} (hfuel : chain.length ≤ fuel) :
    s.freeSlotsFrom fuel start = chain := by
  induction h generalizing fuel with
  | done => cases fuel <;> rfl
  | step hcell _ ih =>
      cases fuel with
      | zero => exact absurd hfuel (Nat.not_succ_le_zero _)
      | succ fuel =>
          simp only [Slab.freeSlotsFrom, hcell]
          rw [ih (Nat.le_of_succ_le_succ hfuel)]

namespace Slab

variable {s : Slab α} {chain : List Nat} {i : Index} {value : α}

/-! ## Vacant and occupied slots -/

/-- There are no more vacant slots than slots, so the walk that counts its steps meets all. -/
theorem FreeList.freeSlots_eq (h : s.FreeList chain) : s.freeSlots = chain := by
  have hslots : chain ⊆ List.range s.slots := by
    intro slot hslot
    obtain ⟨next, generation, hcell⟩ := (h.mem_iff slot).mp hslot
    exact List.mem_range.mpr (lt_size_of_cell hcell)
  refine h.linked.freeSlotsFrom_eq ?_
  calc chain.length ≤ (List.range s.slots).length := (h.nodup.subperm hslots).length_le
    _ = s.slots := List.length_range

/-- A slot is vacant if it is there and nothing lives in it. -/
theorem vacant_iff {slot : Nat} :
    s.Vacant slot ↔ slot < s.slots ∧ ∀ i : Index, i.slot = slot → s.get? i = none := by
  constructor
  · rintro ⟨next, generation, hcell⟩
    refine ⟨lt_size_of_cell hcell, ?_⟩
    rintro i rfl
    refine get?_eq_none_of_cell fun _ _ => ?_
    simp [hcell]
  · rintro ⟨hslot, hnone⟩
    obtain ⟨cell, hcell⟩ : ∃ cell, s.cells[slot]? = some cell :=
      ⟨_, Array.getElem?_eq_getElem hslot⟩
    cases cell with
    | vacant next generation => exact ⟨next, generation, hcell⟩
    | occupied generation value =>
        have hget : s.get? ⟨slot, generation⟩ = some value := get?_eq_some.mpr hcell
        rw [hnone _ rfl] at hget
        exact absurd hget (by simp)

/-- The elements are as many as the occupied cells. -/
theorem length_toList (s : Slab α) : s.toList.length = s.cells.countP Cell.isOccupied := by
  have hcells : (List.range s.slots).map (fun slot => (s.entryAt? slot).isSome) =
      s.cells.toList.map Cell.isOccupied := by
    refine List.ext_getElem (by simp [slots]) fun slot hslot hslot' => ?_
    have hbound : slot < s.cells.size := by simpa using hslot'
    rw [List.getElem_map, List.getElem_map, List.getElem_range, Array.getElem_toList, entryAt?,
      Array.getElem?_eq_getElem hbound]
    cases s.cells[slot] <;> rfl
  calc s.toList.length
      = (List.range s.slots).countP (fun slot => (s.entryAt? slot).isSome) := by
        rw [toList_eq, List.length_filterMap_eq_countP]
    _ = ((List.range s.slots).map fun slot => (s.entryAt? slot).isSome).countP id := by
        rw [List.countP_map]
        rfl
    _ = s.cells.countP Cell.isOccupied := by
        rw [hcells, List.countP_map, ← Array.countP_toList]
        rfl

theorem toList_inOrder (s : Slab α) : (s.toList.map (·.1.slot)).Pairwise (· < ·) := by
  rw [List.pairwise_map, toList_eq, List.pairwise_filterMap]
  refine List.pairwise_lt_range.imp fun {slot slot'} hless => ?_
  rintro ⟨i, a⟩ hi ⟨j, b⟩ hj
  obtain ⟨rfl, -⟩ := entryAt?_eq_some.mp hi
  obtain ⟨rfl, -⟩ := entryAt?_eq_some.mp hj
  exact hless

/-! ## Where the next element goes -/

theorem FreeList.insert_nil (h : s.FreeList []) (value : α) :
    (s.insert value).1 = ⟨s.slots, 0⟩ ∧ (s.insert value).2.slots = s.slots + 1 := by
  have hfree : s.free = none := by
    cases hfree : s.free with
    | none => rfl
    | some slot =>
        obtain ⟨_, _, _, hchain, -⟩ := h.vacant_of_free hfree
        exact absurd hchain (by simp)
  rw [insert_of_free_eq_none hfree]
  exact ⟨rfl, Array.size_push _⟩

theorem FreeList.insert_cons {slot : Nat} {rest : List Nat} (h : s.FreeList (slot :: rest))
    (value : α) :
    (s.insert value).1.slot = slot ∧ (s.insert value).2.slots = s.slots := by
  cases hfree : s.free with
  | none =>
      have hvacant := (h.mem_iff slot).mp List.mem_cons_self
      exact absurd hvacant (h.not_vacant_of_free_eq_none hfree slot)
  | some first =>
      obtain ⟨next, generation, rest', hchain, hcell, -⟩ := h.vacant_of_free hfree
      rw [insert_of_vacant hfree hcell]
      obtain ⟨rfl, -⟩ := List.cons.inj hchain
      exact ⟨rfl, Array.size_setIfInBounds⟩

/-! ## Operations that stop -/

/-- Put `value` into the first vacant slot.  It stops if that is occupied or not there, and if a new
slot would have a number that does not fit into an index. -/
def insert? (s : Slab α) (value : α) : Option (Index × Slab α) :=
  match s.free with
  | none =>
      if s.slots < UInt32.size then
        some (⟨s.slots, 0⟩,
          { s with cells := s.cells.push (.occupied 0 value), size := s.size + 1 })
      else none
  | some slot =>
      match s.cells[slot]? with
      | some (.vacant next generation) =>
          some (⟨slot, generation⟩,
            { cells := s.cells.setIfInBounds slot (.occupied generation value)
              free := next
              size := s.size + 1 })
      | _ => none

/-- Take the element at `i` out.  It stops if the cell that comes out is vacant, and if no element
is counted. -/
def remove? (s : Slab α) (i : Index) : Option (Option α × Slab α) :=
  if s.contains i then
    match s.cells[i.slot]?, s.size with
    | some (.occupied _ value), size + 1 =>
        some (some value,
          { cells := s.cells.setIfInBounds i.slot (.vacant s.free (i.generation + 1))
            free := some i.slot
            size := size })
    | _, _ => none
  else some (none, s)

/-- Remove the element of a slot, if there is one. -/
def clearSlot? (state : List α × Slab α) (slot : Nat) : Option (List α × Slab α) :=
  match state.2.indexAt? slot with
  | none => some state
  | some i => (state.2.remove? i).map fun (value, s) => (state.1 ++ value.toList, s)

/-- Remove every live element, slot by slot. -/
def clear? (s : Slab α) : Option (List α × Slab α) :=
  (List.range s.slots).foldlM clearSlot? ([], s)

/-- What an operation hands back. -/
inductive Answer (α : Type) where
  | index (i : Index)
  | element (element? : Option α)
  | elements (elements : List α)

/-- The answer of the slab to an operation.  A change in place reaches the old element. -/
def answer (s : Slab α) : Action α → Answer α
  | .insert value => .index (s.insert value).1
  | .remove i => .element (s.remove i).1
  | .set i _ => .element (s.get? i)
  | .clear => .elements s.clear.1

/-- The answer to an operation and the slab after it, if it does not stop. -/
def perform? (s : Slab α) : Action α → Option (Answer α × Slab α)
  | .insert value => (s.insert? value).map (Prod.map .index id)
  | .remove i => (s.remove? i).map (Prod.map .element id)
  | .set i value => some (.element (s.get? i), s.modify i fun _ => value)
  | .clear => s.clear?.map (Prod.map .elements id)

theorem insert?_eq (h : s.WellFormed) {value : α}
    (hslots : (s.insert value).2.slots ≤ UInt32.size) :
    s.insert? value = some (s.insert value) := by
  obtain ⟨chain, hchain⟩ := h.freeList
  cases hfree : s.free with
  | none =>
      have hroom : s.slots < UInt32.size := by
        rw [insert_of_free_eq_none hfree] at hslots
        exact Nat.lt_of_succ_le (by simpa [slots] using hslots)
      rw [insert_of_free_eq_none hfree, insert?, hfree]
      exact if_pos hroom
  | some slot =>
      -- the first slot of a sound free list is vacant
      obtain ⟨next, generation, rest, -, hcell, -⟩ := hchain.vacant_of_free hfree
      rw [insert_of_vacant hfree hcell, insert?, hfree]
      simp only [hcell]

theorem remove?_eq (h : s.WellFormed) (i : Index) : s.remove? i = some (s.remove i) := by
  cases hget : s.get? i with
  | none =>
      rw [remove_of_stale hget, remove?, if_neg]
      simp [contains, hget]
  | some value =>
      -- an element that is there is counted
      obtain ⟨size, hsize⟩ : ∃ size, s.size = size + 1 := by
        refine Nat.exists_eq_add_one.mpr ?_
        rw [h.size_eq]
        exact List.length_pos_of_mem (mem_toList.mpr hget)
      rw [remove_of_get? hget, remove?, if_pos (by simp [contains, hget])]
      simp [get?_eq_some.mp hget, hsize]

theorem clearSlot?_eq {drained : List α} (h : s.WellFormed) (slot : Nat) :
    clearSlot? (drained, s) slot = some (clearSlot (drained, s) slot) ∧
      (clearSlot (drained, s) slot).2.WellFormed := by
  cases hentry : s.entryAt? slot with
  | none =>
      rw [clearSlot_of_vacant hentry, clearSlot?, indexAt?_eq, hentry]
      exact ⟨rfl, h⟩
  | some entry =>
      obtain ⟨i, value⟩ := entry
      have hanswer : (s.remove i).1 = some value :=
        (s.get?_remove i).1.trans (entryAt?_eq_some.mp hentry).2
      rw [clearSlot_of_live hentry, clearSlot?, indexAt?_eq, hentry]
      refine ⟨?_, h.remove i⟩
      simp [remove?_eq h, hanswer]

theorem clear?_eq (h : s.WellFormed) : s.clear? = some s.clear := by
  rw [clear?, clear_eq]
  generalize List.range s.slots = slots
  generalize ([] : List α) = drained
  induction slots generalizing s drained with
  | nil => rfl
  | cons slot slots ih =>
      obtain ⟨hslot, hafter⟩ := clearSlot?_eq h slot
      rw [List.foldlM_cons, hslot]
      exact ih hafter _

/-- No operation on a slab that is as its operations leave it stops, as long as slots can be
numbered. -/
theorem perform?_eq (h : s.WellFormed) {action : Action α}
    (hslots : (s.act action).slots ≤ UInt32.size) :
    s.perform? action = some (s.answer action, s.act action) := by
  cases action with
  | insert value => exact congrArg (Option.map _) (insert?_eq h hslots)
  | remove i => exact congrArg (Option.map _) (remove?_eq h i)
  | set i value => rfl
  | clear => exact congrArg (Option.map _) (clear?_eq h)

end Slab

/-- A slab without its cells: how many slots there are, which ones are vacant, in the order in
which they will be used, and what lives at each index. -/
structure Layout (α : Type) where
  slots : Nat := 0
  vacant : List Nat := []
  live : Index → Option α := fun _ => none

namespace Layout

/-- What an operation does to the layout, and what it answers. -/
inductive Step (l : Layout α) : Slab.Action α → Slab.Answer α → Layout α → Prop where
  | reused {slot : Nat} {generation : UInt32} {rest : List Nat} (value : α)
      (hvacant : l.vacant = slot :: rest) :
      Step l (.insert value) (.index ⟨slot, generation⟩)
        ⟨l.slots, rest, Function.update l.live ⟨slot, generation⟩ (some value)⟩
  | appended (value : α) (hnone : l.vacant = []) :
      Step l (.insert value) (.index ⟨l.slots, 0⟩)
        ⟨l.slots + 1, [], Function.update l.live ⟨l.slots, 0⟩ (some value)⟩
  | removed {i : Index} {value : α} (hlive : l.live i = some value) :
      Step l (.remove i) (.element (some value))
        ⟨l.slots, i.slot :: l.vacant, Function.update l.live i none⟩
  | notRemoved {i : Index} (hstale : l.live i = none) : Step l (.remove i) (.element none) l
  | changed {i : Index} {old : α} (value : α) (hlive : l.live i = some old) :
      Step l (.set i value) (.element (some old))
        ⟨l.slots, l.vacant, Function.update l.live i (some value)⟩
  | notChanged {i : Index} (value : α) (hstale : l.live i = none) :
      Step l (.set i value) (.element none) l
  | cleared {items : List (Index × α)} {vacant : List Nat} (hitems : Enumerates items l.live)
      (hinOrder : (items.map (·.1.slot)).Pairwise (· < ·))
      (hvacant : vacant = (items.map (·.1.slot)).reverse ++ l.vacant)
      (hall : ∀ slot < l.slots, slot ∈ vacant) :
      Step l .clear (.elements (items.map Prod.snd)) ⟨l.slots, vacant, fun _ => none⟩

/-- What can be seen of the slab.  The free list visits the vacant slots, each once, and no other,
and ends; every other slot has a live element; the elements are counted right; and the index of a
slot and the list of all elements, in slot order, show what is live. -/
structure Describes (l : Layout α) (s : Slab α) : Prop where
  slots_eq : s.slots = l.slots
  freeList : s.FreeList l.vacant
  freeSlots_eq : s.freeSlots = l.vacant
  occupied_iff : ∀ slot < l.slots,
    slot ∉ l.vacant ↔ ∃ i : Index, i.slot = slot ∧ (l.live i).isSome = true
  size_eq : s.size = s.cells.countP Cell.isOccupied
  get?_eq : s.get? = l.live
  indexAt?_iff : ∀ slot i, s.indexAt? slot = some i ↔ i.slot = slot ∧ (l.live i).isSome = true
  listed : Enumerates s.toList l.live
  inOrder : (s.toList.map (·.1.slot)).Pairwise (· < ·)

/-- A run of the slab is one of the layout, with the same answers and without a stop, and the
layout describes the slab all along. -/
inductive Traces : Layout α → Slab α → List (Slab.Action α) → Prop where
  | done {l : Layout α} {s : Slab α} (hstate : l.Describes s) : Traces l s []
  | step {l l' : Layout α} {s : Slab α} {action : Slab.Action α}
      {actions : List (Slab.Action α)} (hstate : l.Describes s)
      (hperform : s.perform? action = some (s.answer action, s.act action))
      (hstep : l.Step action (s.answer action) l') (hrest : Traces l' (s.act action) actions) :
      Traces l s (action :: actions)

/-- The slab is sound, and the layout is read off it. -/
structure Fits (l : Layout α) (s : Slab α) : Prop where
  wellFormed : s.WellFormed
  slots_eq : s.slots = l.slots
  freeList : s.FreeList l.vacant
  get?_eq : s.get? = l.live

namespace Fits

variable {l : Layout α} {s : Slab α}

theorem describes (h : Fits l s) : l.Describes s where
  slots_eq := h.slots_eq
  freeList := h.freeList
  freeSlots_eq := h.freeList.freeSlots_eq
  occupied_iff slot hslot := by
    rw [h.freeList.mem_iff, Slab.vacant_iff, h.slots_eq, ← h.get?_eq]
    simp only [hslot, true_and, not_forall, Option.isSome_iff_ne_none, exists_prop]
  size_eq := h.wellFormed.size_eq.trans s.length_toList
  get?_eq := h.get?_eq
  indexAt?_iff slot i := by rw [Slab.indexAt?_eq_some, h.get?_eq]
  listed := h.get?_eq ▸ s.enumerates_toList
  inOrder := s.toList_inOrder

/-! ## What an operation does -/

theorem insert (h : Fits l s) (value : α) :
    ∃ l', l.Step (.insert value) (s.answer (.insert value)) l' ∧
      Fits l' (s.act (.insert value)) := by
  have hwf := h.wellFormed.insert value
  have hfree := h.freeList.insert value
  have hget := (h.wellFormed.get?_insert value).2
  rw [h.get?_eq] at hget
  cases hvacant : l.vacant with
  | nil =>
      obtain ⟨hindex, hslots⟩ := (hvacant ▸ h.freeList).insert_nil value
      rw [h.slots_eq] at hindex hslots
      rw [hvacant] at hfree
      rw [hindex] at hget
      refine ⟨⟨l.slots + 1, [], _⟩, ?_, ⟨hwf, hslots, hfree, hget⟩⟩
      rw [Slab.answer, hindex]
      exact .appended value hvacant
  | cons slot rest =>
      obtain ⟨hindex, hslots⟩ := (hvacant ▸ h.freeList).insert_cons value
      rw [hvacant] at hfree
      have hsame : (s.insert value).1 = ⟨slot, (s.insert value).1.generation⟩ := by rw [← hindex]
      rw [hsame] at hget
      refine ⟨⟨l.slots, rest, _⟩, ?_, ⟨hwf, hslots.trans h.slots_eq, hfree, hget⟩⟩
      rw [Slab.answer, hsame]
      exact .reused value hvacant

theorem remove (h : Fits l s) (i : Index) :
    ∃ l', l.Step (.remove i) (s.answer (.remove i)) l' ∧ Fits l' (s.act (.remove i)) := by
  have hanswer := (s.get?_remove i).1
  rw [h.get?_eq] at hanswer
  rw [Slab.answer, hanswer, Slab.act]
  cases hlive : l.live i with
  | none =>
      rw [← h.get?_eq] at hlive
      rw [Slab.remove_of_stale hlive]
      exact ⟨l, .notRemoved (h.get?_eq ▸ hlive), h⟩
  | some value =>
      refine ⟨_, .removed hlive, h.wellFormed.remove i, (s.slots_remove i).trans h.slots_eq,
        h.freeList.remove (by rw [h.get?_eq, hlive]), ?_⟩
      rw [(s.get?_remove i).2, h.get?_eq]

theorem set (h : Fits l s) (i : Index) (value : α) :
    ∃ l', l.Step (.set i value) (s.answer (.set i value)) l' ∧ Fits l' (s.act (.set i value)) := by
  rw [Slab.answer, h.get?_eq, Slab.act]
  cases hlive : l.live i with
  | none =>
      rw [← h.get?_eq] at hlive
      rw [Slab.modify_of_stale hlive]
      exact ⟨l, .notChanged value (h.get?_eq ▸ hlive), h⟩
  | some old =>
      refine ⟨_, .changed value hlive, h.wellFormed.modify i _,
        (s.slots_modify i _).trans h.slots_eq, h.freeList.modify i _, ?_⟩
      rw [Slab.get?_modify, h.get?_eq, hlive]
      rfl

theorem clear (h : Fits l s) :
    ∃ l', l.Step .clear (s.answer .clear) l' ∧ Fits l' (s.act .clear) := by
  obtain ⟨hanswer, hwf, hget⟩ := h.wellFormed.clear
  have hslots := s.slots_clear
  have hfree := h.freeList.clear h.wellFormed
  refine ⟨⟨l.slots, _, fun _ => none⟩, ?_, ⟨hwf, hslots.trans h.slots_eq, hfree, hget⟩⟩
  rw [Slab.answer, hanswer]
  refine .cleared (h.get?_eq ▸ s.enumerates_toList) s.toList_inOrder rfl fun slot hslot => ?_
  -- no element is left, so every slot is vacant
  rw [hfree.mem_iff, Slab.vacant_iff, hslots, h.slots_eq]
  exact ⟨hslot, fun i _ => congrFun hget i⟩

theorem step (h : Fits l s) (action : Slab.Action α) :
    ∃ l', l.Step action (s.answer action) l' ∧ Fits l' (s.act action) := by
  cases action with
  | insert value => exact h.insert value
  | remove i => exact h.remove i
  | set i value => exact h.set i value
  | clear => exact h.clear

/-! ## Runs -/

theorem traces (h : Fits l s) (actions : List (Slab.Action α))
    (hslots : (s.run actions).slots ≤ UInt32.size) : Traces l s actions := by
  induction actions generalizing l s with
  | nil => exact .done h.describes
  | cons action actions ih =>
      have hnow : (s.act action).slots ≤ UInt32.size :=
        Nat.le_trans ((s.act action).slots_le_run actions) hslots
      obtain ⟨l', hstep, hfits⟩ := h.step action
      exact .step h.describes (Slab.perform?_eq h.wellFormed hnow) hstep (ih hfits hslots)

end Fits

theorem fits_empty : Fits ({} : Layout α) Slab.empty where
  wellFormed := Slab.wellFormed_empty
  slots_eq := rfl
  freeList := ⟨.done, List.nodup_nil, by simp [Slab.Vacant, Slab.empty]⟩
  get?_eq := funext fun _ => rfl

/-- Every run of a slab from empty is one of a layout, as long as its slots can be numbered: the
free list is the vacant slots all along, and no operation stops. -/
theorem traces_numbered (actions : List (Slab.Action α))
    (hslots : ((Slab.empty : Slab α).run actions).slots ≤ UInt32.size) :
    Traces {} Slab.empty actions :=
  fits_empty.traces actions hslots

/-- The theorem at a run in which slots are used again, last vacated first, a stale index is
refused, and the slab is cleared with a slot vacant between two live ones. -/
theorem traces_numbered_cleared :
    Traces {} (Slab.empty : Slab Nat)
      [.insert 1, .insert 2, .insert 3, .remove ⟨0, 0⟩, .remove ⟨1, 0⟩, .insert 4,
        .remove ⟨1, 0⟩, .set ⟨1, 1⟩ 9, .insert 5, .remove ⟨1, 1⟩, .clear, .insert 6] :=
  traces_numbered _ (by decide)

end Layout

end BoundedCache
