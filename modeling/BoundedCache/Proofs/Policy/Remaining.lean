import BoundedCache.Proofs.Policy.Drain

/-!
# Those that remain keep their order

A policy that does not draw its victims lists its elements by their indices, in an order of its
own: that of a chain, that of ranks, or that of slots from the hand on.  Taking an element out
changes nothing about the indices of the others.  So the list afterwards is the list before
without that element (`Sound.peekAll_remove`).

A policy that draws has no such order: the last element takes the place that becomes vacant.
-/

namespace BoundedCache

variable {α : Type} {i : Index} {element : α}

/-! ## Lists by index -/

/-- Both policies list their elements by the same indices. -/
def SameIndices (before : List α) (f : Index → Option α) (after : List α)
    (g : Index → Option α) : Prop :=
  ∃ indices : List Index, before = indices.filterMap f ∧ after = indices.filterMap g

/-- Where one index becomes vacant, its element is gone from the list, and nothing else, if no
other index has it. -/
theorem SameIndices.eq_filter [DecidableEq α] {before after : List α} {f : Index → Option α}
    (h : SameIndices before f after (Function.update f i none)) (hi : f i = some element)
    (honly : ∀ j, f j = some element → j = i) :
    after = before.filter fun other => other ≠ element := by
  obtain ⟨indices, rfl, rfl⟩ := h
  rw [List.filter_filterMap]
  refine List.filterMap_congr fun j _ => ?_
  by_cases hj : j = i
  · rw [hj, Function.update_self, hi]
    simp [Option.filter]
  · rw [Function.update_of_ne hj]
    cases hother : f j with
    | none => rfl
    | some other =>
        have hne : other ≠ element := by
          rintro rfl
          exact hj (honly j hother)
        simp [Option.filter, hne]

/-! ## Chains -/

theorem OrderedPolicy.Sound.sameIndices {p : OrderedPolicy α} (h : p.Sound)
    (hi : p.peek? i = some element) :
    SameIndices p.peekAll p.peek? (p.remove i).2.peekAll (p.remove i).2.peek? := by
  obtain ⟨items, hitems⟩ := h
  obtain ⟨left, right, rfl⟩ := hitems.exists_append hi
  obtain ⟨-, hafter⟩ := hitems.remove
  have hgone : (p.remove i).2.peek? i = none := by
    have hremoves := (OrderedPolicy.Sound.remove ⟨_, hitems⟩ i).1.after
    rw [hremoves, Function.update_self]
  have hbefore := hitems.enumerates.filterMap_eq
  have hleft := hafter.enumerates.filterMap_eq
  -- the index of the gap names nothing any more
  have hgap : ((left ++ (i, element) :: right).map Prod.fst).filterMap (p.remove i).2.peek? =
      (left ++ right).map Prod.snd := by
    rw [← hleft, List.map_append, List.map_cons, List.map_append, List.filterMap_append,
      List.filterMap_append, List.filterMap_cons_none hgone]
    rfl
  have hchain : (p.remove i).2.discipline = p.discipline := rfl
  have hsame : (p.remove i).2.chain = (p.chain.remove i).2 := rfl
  rw [OrderedPolicy.peekAll, OrderedPolicy.peekAll, hchain, hsame, hitems.toList_eq,
    hitems.toListRev_eq, hafter.toList_eq, hafter.toListRev_eq]
  split
  · refine ⟨((left ++ (i, element) :: right).map Prod.fst).reverse, ?_, ?_⟩
    · rw [List.filterMap_reverse, List.map_reverse]
      exact congrArg List.reverse hbefore.symm
    · rw [List.filterMap_reverse, hgap, List.map_reverse]
  · exact ⟨_, hbefore.symm, hgap.symm⟩

/-! ## Counts of uses -/

theorem FrequencyPolicy.Sound.sameIndices {p : FrequencyPolicy α} (h : p.Sound)
    (hi : p.peek? i = some element) :
    SameIndices p.peekAll p.peek? (p.remove i).2.peekAll (p.remove i).2.peek? := by
  obtain ⟨node, hget, -⟩ := Option.map_eq_some_iff.mp hi
  have hgone : (p.remove i).2.peek? i = none := by
    rw [(h.remove i).1.after, Function.update_self]
  have hrank := FrequencyPolicy.rank?_of_get? hget
  refine ⟨p.order.map Prod.snd, ?_, ?_⟩
  · rw [List.filterMap_map]
    rfl
  · have horder : (p.remove i).2.order = FrequencyPolicy.eraseRanked node.rank p.order := by
      rw [FrequencyPolicy.remove_of_get? hget]
    rw [FrequencyPolicy.peekAll, horder, FrequencyPolicy.eraseRanked, List.filterMap_filter,
      List.filterMap_map]
    refine List.filterMap_congr fun item hitem => ?_
    -- what is not listed any more is the index at the rank of the element, which is vacant
    by_cases hsame : item.1 = node.rank
    · have hitem? := h.ranking.mem_order.mp hitem
      have hindex : item.2 = i :=
        h.ranking.sequence_inj item.2 i item.1 node.rank hitem? hrank (congrArg _ hsame)
      simp [hsame, hindex, hgone]
    · simp [hsame]

/-! ## The ring -/

/-- A slot that is not vacant after a removal names the index that it named before. -/
theorem Slab.indexAt?_remove (s : Slab α) (i : Index) (slot : Nat) :
    (s.remove i).2.indexAt? slot = (s.indexAt? slot).filter fun j => j ≠ i := by
  refine Option.ext fun j => ?_
  rw [Option.filter_eq_some_iff, Slab.indexAt?_eq_some, Slab.indexAt?_eq_some, (s.get?_remove i).2]
  by_cases hj : j = i
  · simp [hj]
  · simp [hj, Function.update_of_ne]

theorem ClockPolicy.Sound.sameIndices {p : ClockPolicy α} (h : p.Sound) (i : Index) :
    SameIndices p.peekAll p.peek? (p.remove i).2.peekAll (p.remove i).2.peek? := by
  have hgone : (p.remove i).2.peek? i = none := by
    rw [(h.remove i).1.after, Function.update_self]
  have hslots : (p.remove i).2.nodes.slots = p.nodes.slots := p.nodes.slots_remove i
  have hindex : ∀ slot, (p.remove i).2.nodes.indexAt? slot =
      (p.nodes.indexAt? slot).filter fun j => j ≠ i := p.nodes.indexAt?_remove i
  refine ⟨(List.range p.nodes.slots).filterMap fun offset =>
    p.nodes.indexAt? ((p.hand + offset) % p.nodes.slots), ?_, ?_⟩
  · rw [List.filterMap_filterMap]
    refine List.filterMap_congr fun offset _ => ?_
    cases p.nodes.indexAt? ((p.hand + offset) % p.nodes.slots) <;> rfl
  · rw [ClockPolicy.peekAll, hslots, List.filterMap_filterMap]
    refine List.filterMap_congr fun offset _ => ?_
    rw [hindex, show (p.remove i).2.hand = p.hand from rfl]
    cases p.nodes.indexAt? ((p.hand + offset) % p.nodes.slots) with
    | none => rfl
    | some j =>
        by_cases hj : j = i
        · simp [Option.filter, hj, hgone]
        · simp [Option.filter, hj]

/-! ## All policies -/

namespace Policy

variable {p : Policy α}

/-- The policy draws its victims, and lists its elements in no order that would mean anything. -/
def Draws : Policy α → Prop
  | random _ => True
  | _ => False

theorem Sound.sameIndices (h : p.Sound) (hdraws : ¬ p.Draws) (hi : p.peek? i = some element) :
    SameIndices p.peekAll p.peek? (p.remove i).2.peekAll (p.remove i).2.peek? := by
  cases p with
  | ordered p => exact OrderedPolicy.Sound.sameIndices h hi
  | frequency p => exact FrequencyPolicy.Sound.sameIndices h hi
  | secondChance p => exact ClockPolicy.Sound.sameIndices h i
  | random p => exact absurd trivial hdraws
  | forgetful p => exact OrderedPolicy.Sound.sameIndices h hi
  | stubborn p => exact OrderedPolicy.Sound.sameIndices h hi

/-- Taking out an element leaves all others where they were. -/
theorem Sound.peekAll_remove [DecidableEq α] (h : p.Sound) (hdraws : ¬ p.Draws)
    (hi : p.peek? i = some element) (honly : ∀ j, p.peek? j = some element → j = i) :
    (p.remove i).2.peekAll = p.peekAll.filter fun other => other ≠ element := by
  have hsame := h.sameIndices hdraws hi
  rw [(h.remove i).1.after] at hsame
  exact hsame.eq_filter hi honly

/-- Whether a policy draws is decided for good. -/
theorem draws_act (p : Policy α) (action : Action α) : (p.act action).Draws ↔ p.Draws := by
  cases p <;> cases action <;> exact Iff.rfl

/-- So is whether it yields. -/
theorem yielding_act (p : Policy α) (action : Action α) :
    (p.act action).Yielding ↔ p.Yielding := by
  cases p <;> cases action <;> exact Iff.rfl

end Policy

end BoundedCache
