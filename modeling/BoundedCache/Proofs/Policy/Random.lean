import BoundedCache.Policy.Random
import BoundedCache.Proofs.Policy.Effect

/-!
# The dense array and its back pointers

The dense array and the positions that the elements keep must be inverse to each other:
this is `Placement`.  Adding an element extends it by one position; taking one out gives
its position to the last index (`Placement.swapErase`), which is what keeps the array
dense.  The policy is sound when its slab is and its array places the nodes.

A draw is below the size of the array (`Generator.below_lt`), so there is a victim as
long as there is an element.
-/

namespace BoundedCache

namespace RandomPolicy

variable {α : Type} {p : RandomPolicy α} {dense : Array Index} {i : Index} {position : Nat}

/-! ## Placements -/

/-- The array holds each index at its position, and nothing else. -/
def Placement (dense : Array Index) (position? : Index → Option Nat) : Prop :=
  ∀ position i, dense[position]? = some i ↔ position? i = some position

namespace Placement

variable {position? : Index → Option Nat}

theorem lt_size (h : Placement dense position?) (hi : position? i = some position) :
    position < dense.size :=
  (Array.getElem?_eq_some_iff.mp ((h position i).mpr hi)).1

theorem push (h : Placement dense position?) (hi : position? i = none) :
    Placement (dense.push i) (Function.update position? i (some dense.size)) := by
  intro q j
  rw [Array.getElem?_push]
  by_cases hj : j = i
  · subst hj
    have hnot : dense[q]? ≠ some j := by
      rw [Ne, h q j, hi]
      exact (Option.some_ne_none q).symm
    rw [Function.update_self]
    by_cases hq : q = dense.size
    · simp [hq]
    · simp [hq, hnot, eq_comm]
  · rw [Function.update_of_ne hj]
    by_cases hq : q = dense.size
    · have hnot : position? j ≠ some q := by
        intro hposition
        exact absurd (h.lt_size hposition) (by omega)
      simp [hq ▸ hnot, hq, Ne.symm hj]
    · rw [if_neg hq]
      exact h q j

/-- The last index goes. -/
theorem pop (h : Placement dense position?) (hlast : dense.back? = some i) :
    Placement dense.pop (Function.update position? i none) := by
  rw [Array.back?_eq_getElem?] at hlast
  intro q j
  rw [Array.getElem?_pop]
  by_cases hj : j = i
  · subst hj
    rw [Function.update_self]
    split
    · rename_i hless
      have hnot : dense[q]? ≠ some j := by
        rw [Ne, h q j, (h _ j).mp hlast, Option.some.injEq]
        omega
      simp [hnot]
    · simp
  · rw [Function.update_of_ne hj, ← h q j]
    split
    · rfl
    · simp only [reduceCtorEq, false_iff]
      intro hqj
      have hbound := (Array.getElem?_eq_some_iff.mp hqj).1
      rw [show q = dense.size - 1 by omega, hlast, Option.some.injEq] at hqj
      exact hj hqj.symm

/-- Another index takes over a position. -/
theorem set {j : Index} (h : Placement dense position?) (hi : position? i = some position)
    (hj : position? j = none) : Placement (dense.setIfInBounds position j)
      (Function.update (Function.update position? i none) j (some position)) := by
  have hat : dense[position]? = some i := (h position i).mpr hi
  intro q k
  by_cases hq : q = position
  · rw [hq, Array.getElem?_setIfInBounds_self_of_lt (h.lt_size hi)]
    by_cases hkj : k = j
    · rw [hkj, Function.update_self]
      simp
    · rw [Function.update_of_ne hkj]
      by_cases hki : k = i
      · rw [hki, Function.update_self]
        simp [hki ▸ Ne.symm hkj]
      · rw [Function.update_of_ne hki, ← h position k, hat]
        simp [Ne.symm hkj, Ne.symm hki]
  · rw [Array.getElem?_setIfInBounds_ne (Ne.symm hq), h q k]
    by_cases hkj : k = j
    · rw [hkj, Function.update_self, hj]
      simp [Ne.symm hq]
    · rw [Function.update_of_ne hkj]
      by_cases hki : k = i
      · rw [hki, Function.update_self, hi]
        simp [Ne.symm hq]
      · rw [Function.update_of_ne hki]

end Placement

/-- Taking out the last position shortens the array. -/
theorem swapErase_of_last (hback : dense.back? = some i) (hposition : position + 1 = dense.size) :
    swapErase dense position = dense.pop := by
  have hsame : dense.setIfInBounds position i = dense := by
    rw [Array.back?_eq_getElem?, show dense.size - 1 = position by omega] at hback
    refine Array.ext_getElem? fun q => ?_
    by_cases hq : q = position
    · rw [hq, Array.getElem?_setIfInBounds_self_of_lt (by omega), hback]
    · rw [Array.getElem?_setIfInBounds_ne (Ne.symm hq)]
  simp only [swapErase, hback, if_pos (show position < dense.size by omega), hsame]

/-- Any other position is taken over by the last index. -/
theorem swapErase_of_lt (hback : dense.back? = some i) (hposition : position + 1 < dense.size) :
    swapErase dense position = dense.pop.setIfInBounds position i := by
  simp only [swapErase, hback, if_pos (show position < dense.size by omega)]
  refine Array.ext_getElem? fun q => ?_
  have hpop : position < dense.pop.size := by
    rw [Array.size_pop]
    omega
  by_cases hq : q = position
  · rw [hq, Array.getElem?_pop, Array.size_setIfInBounds, if_pos (by omega),
      Array.getElem?_setIfInBounds_self_of_lt (by omega),
      Array.getElem?_setIfInBounds_self_of_lt hpop]
  · rw [Array.getElem?_pop, Array.size_setIfInBounds,
      Array.getElem?_setIfInBounds_ne (Ne.symm hq), Array.getElem?_setIfInBounds_ne (Ne.symm hq),
      Array.getElem?_pop]

/-- The last index takes over the position that becomes free, unless that is its own. -/
theorem Placement.swapErase {position? : Index → Option Nat} (h : Placement dense position?)
    (hi : position? i = some position) :
    ((swapErase dense position)[position]? = none ∧
        Placement (swapErase dense position) (Function.update position? i none)) ∨
      ∃ last old, (swapErase dense position)[position]? = some last ∧
        Function.update position? i none last = some old ∧
        Placement (swapErase dense position)
          (Function.update (Function.update position? i none) last (some position)) := by
  have hposition := h.lt_size hi
  have hat : dense[position]? = some i := (h position i).mpr hi
  obtain ⟨last, hback⟩ : ∃ last, dense.back? = some last := by
    rw [Array.back?_eq_getElem?]
    exact ⟨_, Array.getElem?_eq_getElem (by omega)⟩
  by_cases hlast : position + 1 = dense.size
  · have hself : last = i := by
      rw [Array.back?_eq_getElem?, show dense.size - 1 = position by omega, hat,
        Option.some.injEq] at hback
      exact hback.symm
    rw [swapErase_of_last hback hlast]
    refine .inl ⟨?_, hself ▸ h.pop hback⟩
    rw [Array.getElem?_pop, if_neg (by omega)]
  · have hne : i ≠ last := by
      rintro rfl
      rw [Array.back?_eq_getElem?, h _ i, hi, Option.some.injEq] at hback
      omega
    rw [swapErase_of_lt hback (by omega)]
    refine .inr ⟨last, dense.size - 1,
      Array.getElem?_setIfInBounds_self_of_lt (by rw [Array.size_pop]; omega), ?_, ?_⟩
    · rw [Function.update_of_ne hne.symm, ← h, ← Array.back?_eq_getElem?]
      exact hback
    -- the last index leaves the end first, and then comes in again
    have hpopped := h.pop hback
    have hset := hpopped.set (i := i) (by rw [Function.update_of_ne hne]; exact hi)
      (Function.update_self last none position?)
    rwa [Function.update_comm hne.symm, Function.update_idem] at hset

/-! ## The policy -/

/-- The position of the element at an index. -/
def position? (p : RandomPolicy α) : Index → Option Nat := p.nodes.elements Placed.position

/-- The slab is sound, and the dense array places its nodes. -/
structure Sound (p : RandomPolicy α) : Prop where
  wellFormed : p.nodes.WellFormed
  placement : Placement p.dense p.position?

theorem peek?_eq (p : RandomPolicy α) : p.peek? = p.nodes.elements Placed.element := rfl

theorem sound_start (generator : Generator) :
    ({ generator := generator } : RandomPolicy α).Sound where
  wellFormed := Slab.wellFormed_empty
  placement _ _ := by simp [position?, Slab.elements, Slab.get?]

theorem Sound.add (h : p.Sound) (element : α) :
    Adds p.peek? element (p.add element).1 (p.add element).2.peek? ∧
      (p.add element).2.Sound := by
  have hnode := h.wellFormed.adds Placed.position ⟨element, p.dense.size⟩
  refine ⟨h.wellFormed.adds Placed.element ⟨element, p.dense.size⟩, h.wellFormed.insert _, ?_⟩
  rw [show position? (p.add element).2 = _ from hnode.after]
  exact h.placement.push hnode.fresh

theorem Sound.update (h : p.Sound) (i : Index) (element : α) :
    Replaces p.peek? i element (p.update i element).1 (p.update i element).2.peek? ∧
      (p.update i element).2.Sound := by
  have hposition := p.nodes.elements_modify Placed.position i
    (fun node => { node with element := element }) fun _ => rfl
  refine ⟨p.nodes.replaces Placed.element i element _ fun _ => rfl, h.wellFormed.modify i _, ?_⟩
  rw [show position? (p.update i element).2 = _ from hposition]
  exact h.placement

/-- Tell the index that was moved, if one was, its new position. -/
def reposition (nodes : Slab (Placed α)) (moved? : Option Index) (position : Nat) :
    Slab (Placed α) :=
  match moved? with
  | none => nodes
  | some moved => nodes.modify moved fun other => { other with position := position }

theorem remove_of_get? {node : Placed α} (hget : p.nodes.get? i = some node) :
    p.remove i = (some node.element, { p with
      nodes := reposition (p.nodes.remove i).2 (swapErase p.dense node.position)[node.position]?
        node.position
      dense := swapErase p.dense node.position }) := by
  rw [remove, Slab.remove_of_get? hget]
  rfl

theorem elements_reposition (nodes : Slab (Placed α)) (moved? : Option Index) (position : Nat) :
    (reposition nodes moved? position).elements Placed.element =
      nodes.elements Placed.element := by
  cases moved? with
  | none => rfl
  | some moved => exact nodes.elements_modify Placed.element moved _ fun _ => rfl

theorem positions_reposition {nodes : Slab (Placed α)} {moved : Index} {old : Nat}
    (hmoved : nodes.elements Placed.position moved = some old) (position : Nat) :
    (reposition nodes (some moved) position).elements Placed.position =
      Function.update (nodes.elements Placed.position) moved (some position) := by
  obtain ⟨node, hget, -⟩ := Option.map_eq_some_iff.mp hmoved
  rw [reposition, Slab.elements_eq, Slab.get?_modify, hget, Function.comp_update]
  rfl

theorem reposition_wellFormed {nodes : Slab (Placed α)} (h : nodes.WellFormed)
    (moved? : Option Index) (position : Nat) :
    (reposition nodes moved? position).WellFormed := by
  cases moved? with
  | none => exact h
  | some moved => exact h.modify moved _

theorem Sound.remove (h : p.Sound) (i : Index) :
    Removes p.peek? i (p.remove i).1 (p.remove i).2.peek? ∧ (p.remove i).2.Sound := by
  cases hget : p.nodes.get? i with
  | none =>
      have hpeek : p.peek? i = none := Slab.elements_of_stale Placed.element hget
      rw [RandomPolicy.remove, Slab.remove_of_stale hget]
      exact ⟨⟨hpeek.symm, (Function.update_eq_self_iff.mpr hpeek.symm).symm⟩, h⟩
  | some node =>
      have helements := p.nodes.removes Placed.element i
      have hpositions := (p.nodes.removes Placed.position i).after
      have hposition : p.position? i = some node.position :=
        Slab.elements_of_get? Placed.position hget
      rw [remove_of_get? hget]
      refine ⟨⟨?_, ?_⟩, reposition_wellFormed (h.wellFormed.remove i) _ _, ?_⟩
      · exact (Slab.elements_of_get? Placed.element hget).symm
      · rw [peek?_eq, elements_reposition, helements.after]
        rfl
      · rw [position?]
        -- the index was the last of the array, or the last one has taken its position
        rcases h.placement.swapErase hposition with
          ⟨hnone, hplacement⟩ | ⟨last, old, hlast, hold, hplacement⟩
        · simp only [hnone, reposition]
          rw [hpositions]
          exact hplacement
        · simp only [hlast]
          have hlive : (p.nodes.remove i).2.elements Placed.position last = some old := by
            rw [hpositions]
            exact hold
          rw [positions_reposition hlive, hpositions]
          exact hplacement

theorem Sound.evict (h : p.Sound) :
    Evicts p.peek? p.evict.1 p.evict.2.peek? ∧ p.evict.2.Sound := by
  by_cases hempty : p.dense.isEmpty = true
  · have hevict : p.evict = (none, p) := by rw [RandomPolicy.evict, if_pos hempty]
    rw [hevict]
    refine ⟨.exhausted fun i => ?_, h⟩
    cases hget : p.nodes.get? i with
    | none => exact Slab.elements_of_stale Placed.element hget
    | some node =>
        have hposition : p.position? i = some node.position :=
          Slab.elements_of_get? Placed.position hget
        have hbound := h.placement.lt_size hposition
        rw [Array.isEmpty_iff_size_eq_zero] at hempty
        omega
  · have hsize : 0 < p.dense.size := by
      rw [Array.isEmpty_iff_size_eq_zero] at hempty
      omega
    -- the drawn position holds a live index, which is removed
    have hdraw := p.generator.below_lt hsize
    have hdrawn := Array.getElem?_eq_getElem hdraw
    generalize p.dense[(p.generator.below p.dense.size).1] = i at hdrawn
    have hevict : p.evict =
        { p with generator := (p.generator.below p.dense.size).2 }.remove i := by
      rw [RandomPolicy.evict, if_neg hempty]
      simp only [evictAt, hdrawn]
    obtain ⟨node, hget, -⟩ := Option.map_eq_some_iff.mp ((h.placement _ i).mp hdrawn)
    have hpeek : p.peek? i = some node.element := Slab.elements_of_get? Placed.element hget
    obtain ⟨hremoves, hsound⟩ :=
      Sound.remove (p := { p with generator := (p.generator.below p.dense.size).2 })
        ⟨h.wellFormed, h.placement⟩ i
    rw [hevict]
    exact ⟨hremoves.evicts hpeek, hsound⟩

theorem Sound.clear (h : p.Sound) :
    Lists p.peek? p.clear.1 ∧ (p.clear.2.peek? = fun _ => none) ∧ p.clear.2.Sound := by
  obtain ⟨hlists, hnone⟩ := h.wellFormed.clear_elements Placed.element
  obtain ⟨-, hwf, hget⟩ := h.wellFormed.clear
  refine ⟨hlists, hnone, hwf, ?_⟩
  have hposition : p.clear.2.position? = fun _ => none := by
    rw [position?, Slab.elements_eq, show p.clear.2.nodes.get? = _ from hget]
    rfl
  rw [hposition]
  intro position i
  simp [RandomPolicy.clear]

theorem Placement.enumerates {position? : Index → Option Nat} (h : Placement dense position?) :
    Enumerates dense.toList.zipIdx position? where
  nodup := by
    rw [List.zipIdx_map_fst, List.nodup_iff_injective_getElem]
    rintro ⟨a, ha⟩ ⟨b, hb⟩ hab
    have hfirst := (h a _).mp (Array.getElem?_eq_getElem ha)
    have hsecond := (h b _).mp (Array.getElem?_eq_getElem hb)
    simp only [Array.getElem_toList] at hab
    rw [hab, hsecond, Option.some.injEq] at hfirst
    exact Fin.ext hfirst.symm
  mem_iff i position := by
    rw [List.mk_mem_zipIdx_iff_getElem?, Array.getElem?_toList]
    exact h position i

theorem Sound.peekAll (h : p.Sound) : Lists p.peek? p.peekAll ∧ p.size = p.peekAll.length := by
  have henumerates := h.placement.enumerates
  have hlists := henumerates.lists_filterMap (f := p.peek?) fun i => by
    simp [position?, Slab.elements, peek?]
  rw [List.zipIdx_map_fst] at hlists
  refine ⟨hlists, ?_⟩
  have hperm := henumerates.perm (p.nodes.enumerates_toList.map Placed.position)
  rw [RandomPolicy.peekAll, ← h.wellFormed.size_eq_of_lists Placed.element hlists,
    h.wellFormed.size_eq, size, ← Array.length_toList]
  have hlength := hperm.length_eq
  rwa [List.length_zipIdx, List.length_map] at hlength

end RandomPolicy

end BoundedCache
