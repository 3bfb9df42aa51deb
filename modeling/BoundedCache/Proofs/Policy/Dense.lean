import BoundedCache.Proofs.Policy.Register

/-!
# A random policy is a plain vector

To its caller the random policy is a vector of elements, each under an index: an element comes in
at the end, and when one goes the last takes its position (`swapRemove`).  The drawn position is
the only thing that is random, and all that is asked of a draw is that it is below the length.

`Holds` says which vector a policy stands for, and that each element knows its position in it.
Back pointers are why an element can be taken out through its index in one step, and they are why
every access to the dense array is in bounds.  To say the latter, the operations that index the
array are written a second time, so that they fail where they would reach outside of it
(`remove?`, `evictWith?`): along a run they never do.

`Step` is what an operation does to the vector, and `Traces` runs vector and policy side by side.
-/

namespace BoundedCache

/-- The list without the item at a position, which the last item takes over. -/
def swapRemove {β : Type} (items : List β) (position : Nat) : List β :=
  match items.getLast? with
  | none => []
  | some last => (items.set position last).dropLast

theorem map_swapRemove {β γ : Type} (f : β → γ) (items : List β) (position : Nat) :
    (swapRemove items position).map f = swapRemove (items.map f) position := by
  rw [swapRemove, swapRemove, List.getLast?_map]
  cases items.getLast? with
  | none => rfl
  | some last =>
      rw [Option.map_some]
      simp only [List.map_dropLast, List.map_set]

theorem mem_of_mem_swapRemove {β : Type} {items : List β} {position : Nat} {x : β}
    (h : x ∈ swapRemove items position) : x ∈ items := by
  rw [swapRemove] at h
  cases hlast : items.getLast? with
  | none =>
      rw [hlast] at h
      exact absurd h List.not_mem_nil
  | some last =>
      rw [hlast] at h
      rcases List.mem_or_eq_of_mem_set (List.dropLast_subset _ h) with hmem | rfl
      · exact hmem
      · exact List.mem_of_getLast? hlast

namespace RandomPolicy

variable {α : Type} {p : RandomPolicy α} {items : List (Index × α)} {i : Index} {element : α}
  {position : Nat}

/-- The array does to its indices what the vector does to its items. -/
theorem toList_swapErase (dense : Array Index) (hposition : position < dense.size) :
    (swapErase dense position).toList = swapRemove dense.toList position := by
  rw [swapErase, swapRemove, Array.getLast?_toList]
  cases hback : dense.back? with
  | none =>
      rw [Array.back?_eq_none_iff] at hback
      simp [hback]
  | some last => simp only [if_pos hposition, Array.toList_pop, Array.toList_setIfInBounds]

/-! ## Operations that fail out of bounds -/

/-- The array without a position that must be in it. -/
def swapErase? (dense : Array Index) (position : Nat) : Option (Array Index) :=
  if position < dense.size then some (swapErase dense position) else none

/-- Take out the element at `i`.  It fails where the array has no such position as the element
says. -/
def remove? (p : RandomPolicy α) (i : Index) : Option (Option α × RandomPolicy α) :=
  match p.nodes.remove i with
  | (none, _) => some (none, p)
  | (some node, nodes) => do
      let dense ← swapErase? p.dense node.position
      let nodes := reposition nodes dense[node.position]? node.position
      return (some node.element, { p with nodes := nodes, dense := dense })

/-- Take out the element at a position that is drawn below the number of elements. -/
def evictWith (p : RandomPolicy α) (draw : Nat → Nat × Generator) : Option α × RandomPolicy α :=
  if p.dense.isEmpty then (none, p)
  else { p with generator := (draw p.dense.size).2 }.evictAt (draw p.dense.size).1

/-- The same, but it fails where the array has no such position. -/
def evictWith? (p : RandomPolicy α) (draw : Nat → Nat × Generator) :
    Option (Option α × RandomPolicy α) :=
  if p.dense.isEmpty then some (none, p)
  else do
    let i ← p.dense[(draw p.dense.size).1]?
    { p with generator := (draw p.dense.size).2 }.remove? i

/-- A policy draws with its own generator, whose draws are below the number of elements. -/
theorem evict_eq_evictWith (p : RandomPolicy α) :
    p.evict = p.evictWith p.generator.below ∧ ∀ n, 0 < n → (p.generator.below n).1 < n :=
  ⟨rfl, fun _ hn => p.generator.below_lt hn⟩

/-- The operations on a random policy, as data.  An eviction comes with what is drawn from the
numbers below any `n`, and the generator after that. -/
inductive Action (α : Type) where
  | add (element : α)
  | update (index : Index) (element : α)
  | remove (index : Index)
  | evict (draw : Nat → Nat × Generator)
  | clear

/-- The answer to an operation, and the policy after it. -/
def perform (p : RandomPolicy α) : Action α → Policy.Answer α × RandomPolicy α
  | .add element => (p.add element).map .index id
  | .update i element => (p.update i element).map .updated id
  | .remove i => (p.remove i).map .element id
  | .evict draw => (p.evictWith draw).map .element id
  | .clear => p.clear.map .elements id

/-- The same, but an access out of bounds fails. -/
def perform? (p : RandomPolicy α) : Action α → Option (Policy.Answer α × RandomPolicy α)
  | .remove i => (p.remove? i).map (Prod.map .element id)
  | .evict draw => (p.evictWith? draw).map (Prod.map .element id)
  | action => some (p.perform action)

/-! ## Vectors -/

/-- The policy stands for the vector: the dense array has its indices, and an element is under an
index, with a position, exactly if it is in the vector there. -/
structure Holds (p : RandomPolicy α) (items : List (Index × α)) : Prop where
  dense_eq : p.dense.toList = items.map Prod.fst
  node_iff : ∀ i element position,
    p.nodes.get? i = some ⟨element, position⟩ ↔ items[position]? = some (i, element)
  peekAll_eq : p.peekAll = items.map Prod.snd
  size_eq : p.size = items.length

/-- What an operation does to the vector, and what it may answer. -/
inductive Step (items : List (Index × α)) :
    Action α → Policy.Answer α → List (Index × α) → Prop where
  | added {i : Index} (element : α) (hfresh : i ∉ items.map Prod.fst) :
      Step items (.add element) (.index i) (items ++ [(i, element)])
  | updated {i : Index} {old : α} {position : Nat} (element : α)
      (hat : items[position]? = some (i, old)) :
      Step items (.update i element) (.updated true) (items.set position (i, element))
  | notUpdated {i : Index} (element : α) (hstale : i ∉ items.map Prod.fst) :
      Step items (.update i element) (.updated false) items
  | removed {i : Index} {element : α} {position : Nat}
      (hat : items[position]? = some (i, element)) :
      Step items (.remove i) (.element (some element)) (swapRemove items position)
  | notRemoved {i : Index} (hstale : i ∉ items.map Prod.fst) :
      Step items (.remove i) (.element none) items
  | evicted {i : Index} {element : α} {draw : Nat → Nat × Generator}
      (hat : items[(draw items.length).1]? = some (i, element)) :
      Step items (.evict draw) (.element (some element)) (swapRemove items (draw items.length).1)
  | exhausted (draw : Nat → Nat × Generator) (hnone : items = []) :
      Step items (.evict draw) (.element none) items
  | cleared {elements : List α} (hall : elements.Perm (items.map Prod.snd)) :
      Step items .clear (.elements elements) []

/-- A run of the policy is one of the vector, with the same answers and no access out of bounds,
and the policy stands for the vector all along. -/
inductive Traces : List (Index × α) → RandomPolicy α → List (Action α) → Prop where
  | done {items : List (Index × α)} {p : RandomPolicy α} (hstate : p.Holds items) :
      Traces items p []
  | step {items items' : List (Index × α)} {p : RandomPolicy α} {action : Action α}
      {actions : List (Action α)} (hstate : p.Holds items)
      (hinBounds : p.perform? action = some (p.perform action))
      (hstep : Step items action (p.perform action).1 items')
      (hrest : Traces items' (p.perform action).2 actions) : Traces items p (action :: actions)

/-! ## What a vector says of its policy -/

theorem exists_getElem?_of_mem (hmem : i ∈ items.map Prod.fst) :
    ∃ element, ∃ position : Nat, items[position]? = some (i, element) := by
  obtain ⟨⟨j, element⟩, hitem, rfl⟩ := List.mem_map.mp hmem
  obtain ⟨position, hat⟩ := List.getElem?_of_mem hitem
  exact ⟨element, position, hat⟩

/-- What is in the dense array is live. -/
theorem Sound.live_of_mem (h : p.Sound) (hmem : i ∈ p.dense.toList) : ∃ a, p.peek? i = some a := by
  obtain ⟨position, hat⟩ := List.getElem?_of_mem hmem
  rw [Array.getElem?_toList] at hat
  obtain ⟨node, hget, -⟩ := Option.map_eq_some_iff.mp ((h.placement position i).mp hat)
  exact ⟨node.element, Slab.elements_of_get? Placed.element hget⟩

/-- A vector with the indices of the array and the elements under them is the one that the policy
stands for. -/
theorem Sound.holds (h : p.Sound) (hdense : p.dense.toList = items.map Prod.fst)
    (hpeek : ∀ x ∈ items, p.peek? x.1 = some x.2) : p.Holds items := by
  have hat : ∀ position : Nat, p.dense[position]? = items[position]?.map Prod.fst := by
    intro position
    rw [← Array.getElem?_toList, hdense, List.getElem?_map]
  refine ⟨hdense, fun i element position => ⟨fun hget => ?_, fun hitem => ?_⟩, ?_, ?_⟩
  · have hposition : p.position? i = some position := Slab.elements_of_get? Placed.position hget
    have hindex := (h.placement position i).mpr hposition
    rw [hat] at hindex
    obtain ⟨⟨j, other⟩, hitem, rfl⟩ := Option.map_eq_some_iff.mp hindex
    have hother := hpeek _ (List.mem_of_getElem? hitem)
    rw [peek?, hget] at hother
    rw [hitem, ← show element = other from Option.some.inj hother]
  · have hindex : p.dense[position]? = some i := by rw [hat, hitem]; rfl
    have hother := hpeek _ (List.mem_of_getElem? hitem)
    obtain ⟨⟨found, place⟩, hget, hplace⟩ :=
      Option.map_eq_some_iff.mp ((h.placement position i).mp hindex)
    rw [peek?, hget] at hother
    have hfound : found = element := Option.some.inj hother
    rw [hget, ← show place = position from hplace, ← hfound]
  · rw [RandomPolicy.peekAll, hdense, List.filterMap_map, ← List.filterMap_eq_map]
    exact List.filterMap_congr hpeek
  · rw [size, ← Array.length_toList, hdense, List.length_map]

namespace Holds

variable (h : p.Holds items)
include h

theorem peek?_of_mem (hmem : (i, element) ∈ items) : p.peek? i = some element := by
  obtain ⟨position, hat⟩ := List.getElem?_of_mem hmem
  exact Slab.elements_of_get? Placed.element ((h.node_iff i element position).mpr hat)

/-- An index that is not in the vector is stale. -/
theorem get?_eq_none (hstale : i ∉ items.map Prod.fst) : p.nodes.get? i = none := by
  refine Option.eq_none_iff_forall_ne_some.mpr fun ⟨element, position⟩ hget => hstale ?_
  have hat := (h.node_iff i element position).mp hget
  exact List.mem_map.mpr ⟨_, List.mem_of_getElem? hat, rfl⟩

theorem lt_size (hat : items[position]? = some (i, element)) : position < p.dense.size := by
  rw [← Array.length_toList, h.dense_eq, List.length_map]
  exact (List.getElem?_eq_some_iff.mp hat).1

/-! ## Operations -/

theorem add (hsound : p.Sound) (element : α) :
    (p.add element).1 ∉ items.map Prod.fst ∧
      (p.add element).2.Holds (items ++ [((p.add element).1, element)]) := by
  obtain ⟨hadds, hsound'⟩ := hsound.add element
  have hfresh : (p.add element).1 ∉ items.map Prod.fst := by
    intro hmem
    rw [← h.dense_eq] at hmem
    obtain ⟨other, hother⟩ := hsound.live_of_mem hmem
    rw [hadds.fresh] at hother
    exact Option.some_ne_none other hother.symm
  refine ⟨hfresh, hsound'.holds ?_ fun x hx => ?_⟩
  · show (p.dense.push _).toList = _
    rw [Array.toList_push, h.dense_eq, List.map_append]
    rfl
  · rw [hadds.after]
    rcases List.mem_append.mp hx with hold | hnew
    · rw [Function.update_of_ne (ne_of_mem hold hfresh)]
      exact h.peek?_of_mem hold
    · rw [List.mem_singleton.mp hnew, Function.update_self]

theorem update (hsound : p.Sound) {old : α} (hat : items[position]? = some (i, old))
    (element : α) :
    (p.update i element).1 = true ∧
      (p.update i element).2.Holds (items.set position (i, element)) := by
  obtain ⟨⟨hanswer, hafter⟩, hsound'⟩ := hsound.update i element
  rw [h.peek?_of_mem (List.mem_of_getElem? hat)] at hanswer hafter
  obtain ⟨hlength, hget⟩ := List.getElem?_eq_some_iff.mp hat
  refine ⟨hanswer, hsound'.holds ?_ fun x hx => ?_⟩
  · show p.dense.toList = _
    have hsame : (items.map Prod.fst).set position i = items.map Prod.fst := by
      have hbound : position < (items.map Prod.fst).length := by simpa using hlength
      have hindex : i = (items.map Prod.fst)[position] := by simp [hget]
      rw [hindex, List.set_getElem_self]
    rw [h.dense_eq, List.map_set, hsame]
  · rw [hafter]
    obtain ⟨q, hq⟩ := List.getElem?_of_mem hx
    by_cases hplace : position = q
    · rw [← hplace, List.getElem?_set_self hlength, Option.some.injEq] at hq
      rw [← hq, Function.update_self]
      rfl
    · rw [List.getElem?_set_ne hplace] at hq
      -- the index that is updated stands at its own position only
      have hne : x.1 ≠ i := by
        intro heq
        have hother := (h.node_iff x.1 x.2 q).mpr hq
        rw [heq, (h.node_iff i old position).mpr hat, Option.some.injEq] at hother
        exact hplace (congrArg Placed.position hother)
      rw [Function.update_of_ne hne]
      exact h.peek?_of_mem (List.mem_of_getElem? hq)

/-- An element is taken out of the vector in bounds of the dense array. -/
theorem remove (hsound : p.Sound) (hat : items[position]? = some (i, element)) :
    p.remove? i = some (p.remove i) ∧ (p.remove i).1 = some element ∧
      (p.remove i).2.Holds (swapRemove items position) := by
  have hget := (h.node_iff i element position).mpr hat
  have hposition := h.lt_size hat
  obtain ⟨hremoves, hsound'⟩ := hsound.remove i
  have hdense : (p.remove i).2.dense.toList = (swapRemove items position).map Prod.fst := by
    rw [remove_of_get? hget, toList_swapErase _ hposition, h.dense_eq, map_swapRemove]
  refine ⟨?_, ?_, hsound'.holds hdense fun x hx => ?_⟩
  · rw [remove_of_get? hget, remove?, Slab.remove_of_get? hget]
    simp [swapErase?, hposition]
  · rw [hremoves.answer]
    exact h.peek?_of_mem (List.mem_of_getElem? hat)
  · -- what is still in the array is live, so it is not the element that has gone
    have hmem : x.1 ∈ (p.remove i).2.dense.toList := hdense ▸ List.mem_map_of_mem hx
    obtain ⟨other, hother⟩ := hsound'.live_of_mem hmem
    rw [hremoves.after] at hother ⊢
    have hne := (Enumerates.update_none_eq_some.mp hother).1
    rw [Function.update_of_ne hne]
    exact h.peek?_of_mem (mem_of_mem_swapRemove hx)

/-- A drawn element is taken out in bounds, and so is none from an empty vector. -/
theorem evict (hsound : p.Sound) {draw : Nat → Nat × Generator}
    (hdraw : ∀ n, 0 < n → (draw n).1 < n) :
    p.evictWith? draw = some (p.evictWith draw) ∧ (p.evictWith draw).2.Sound ∧
      ∃ items', Step items (.evict draw) (.element (p.evictWith draw).1) items' ∧
        (p.evictWith draw).2.Holds items' := by
  have hsize : p.dense.size = items.length := h.size_eq
  by_cases hempty : p.dense.isEmpty = true
  · have hnone : items = [] := by
      rw [Array.isEmpty_iff_size_eq_zero, hsize] at hempty
      exact List.eq_nil_of_length_eq_zero hempty
    rw [evictWith?, evictWith, if_pos hempty, if_pos hempty]
    exact ⟨rfl, hsound, items, .exhausted draw hnone, h⟩
  · have hlength : 0 < items.length := by
      rw [Array.isEmpty_iff_size_eq_zero, hsize] at hempty
      omega
    -- the draw hits an item, whose index is removed from the policy with the next generator
    obtain ⟨⟨i, element⟩, hat⟩ : ∃ x, items[(draw items.length).1]? = some x :=
      ⟨_, List.getElem?_eq_getElem (hdraw _ hlength)⟩
    have hindex : p.dense[(draw items.length).1]? = some i := by
      rw [← Array.getElem?_toList, h.dense_eq, List.getElem?_map, hat]
      rfl
    generalize hq : ({ p with generator := (draw items.length).2 } : RandomPolicy α) = q
    have hholds : q.Holds items := by
      subst hq
      exact ⟨h.dense_eq, h.node_iff, h.peekAll_eq, h.size_eq⟩
    have hsound' : q.Sound := by
      subst hq
      exact ⟨hsound.wellFormed, hsound.placement⟩
    have hevict : p.evictWith draw = q.remove i := by
      have hdense : q.dense = p.dense := hq ▸ rfl
      rw [evictWith, if_neg hempty, hsize, hq, evictAt, hdense, hindex]
    obtain ⟨hinBounds, hanswer, hafter⟩ := hholds.remove hsound' hat
    rw [hevict, hanswer]
    refine ⟨?_, (hsound'.remove i).2, _, .evicted hat, hafter⟩
    rw [evictWith?, if_neg hempty, hsize, hindex, hq]
    exact hinBounds

theorem clear (hsound : p.Sound) :
    p.clear.1.Perm (items.map Prod.snd) ∧ p.clear.2.Holds [] := by
  obtain ⟨hlists, -, hsound'⟩ := hsound.clear
  refine ⟨?_, hsound'.holds rfl fun x hx => absurd hx List.not_mem_nil⟩
  rw [← h.peekAll_eq]
  exact hlists.perm hsound.peekAll.1

/-- One operation: it stays in bounds, and does to the vector what it should. -/
theorem step (hsound : p.Sound) (action : Action α)
    (hdraw : ∀ draw, action = .evict draw → ∀ n, 0 < n → (draw n).1 < n) :
    p.perform? action = some (p.perform action) ∧ (p.perform action).2.Sound ∧
      ∃ items', Step items action (p.perform action).1 items' ∧
        (p.perform action).2.Holds items' := by
  cases action with
  | add element =>
      obtain ⟨hfresh, hafter⟩ := h.add hsound element
      exact ⟨rfl, (hsound.add element).2, _, .added element hfresh, hafter⟩
  | update i element =>
      refine ⟨rfl, (hsound.update i element).2, ?_⟩
      by_cases hlive : i ∈ items.map Prod.fst
      · obtain ⟨old, position, hat⟩ := exists_getElem?_of_mem hlive
        obtain ⟨hanswer, hafter⟩ := h.update hsound hat element
        have hstep := Step.updated element hat
        rw [← hanswer] at hstep
        exact ⟨_, hstep, hafter⟩
      · have hstale := h.get?_eq_none hlive
        have hupdate : p.update i element = (false, p) := by
          rw [RandomPolicy.update, Slab.modify_of_stale hstale, Slab.contains, hstale]
          rfl
        rw [perform, hupdate]
        exact ⟨items, .notUpdated element hlive, h⟩
  | remove i =>
      by_cases hlive : i ∈ items.map Prod.fst
      · obtain ⟨element, position, hat⟩ := exists_getElem?_of_mem hlive
        obtain ⟨hinBounds, hanswer, hafter⟩ := h.remove hsound hat
        have hstep := Step.removed hat
        rw [← hanswer] at hstep
        exact ⟨congrArg (Option.map _) hinBounds, (hsound.remove i).2, _, hstep, hafter⟩
      · have hremove := Slab.remove_of_stale (h.get?_eq_none hlive)
        have hgone : p.remove i = (none, p) := by rw [RandomPolicy.remove, hremove]
        rw [perform?, perform, remove?, hremove, hgone]
        exact ⟨rfl, hsound, items, .notRemoved hlive, h⟩
  | evict draw =>
      obtain ⟨hinBounds, hsound', hstep⟩ := h.evict hsound (hdraw draw rfl)
      exact ⟨congrArg (Option.map _) hinBounds, hsound', hstep⟩
  | clear =>
      obtain ⟨hall, hafter⟩ := h.clear hsound
      exact ⟨rfl, hsound.clear.2.2, _, .cleared hall, hafter⟩

theorem traces (hsound : p.Sound) (actions : List (Action α))
    (hdraws : ∀ draw, .evict draw ∈ actions → ∀ n, 0 < n → (draw n).1 < n) :
    Traces items p actions := by
  induction actions generalizing p items with
  | nil => exact .done h
  | cons action actions ih =>
      obtain ⟨hinBounds, hsound', items', hstep, hafter⟩ :=
        h.step hsound action fun draw hdraw => hdraws draw (hdraw ▸ List.mem_cons_self)
      refine .step h hinBounds hstep (ih hafter hsound' fun draw hmem => ?_)
      exact hdraws draw (List.mem_cons_of_mem _ hmem)

end Holds

/-- Every run from empty, whatever is drawn, is a run of a plain vector: the answers are those of
the vector, the policy stands for it all along, and no access is out of bounds.  The evictions of
the policy itself are among these, with its generator to draw. -/
theorem traces_vector (generator : Generator) (actions : List (Action α))
    (hdraws : ∀ draw, .evict draw ∈ actions → ∀ n, 0 < n → (draw n).1 < n) :
    Traces [] ({ generator := generator } : RandomPolicy α) actions ∧
      ∀ p : RandomPolicy α, p.evict = p.evictWith p.generator.below ∧
        ∀ n, 0 < n → (p.generator.below n).1 < n := by
  have hsound : ({ generator := generator } : RandomPolicy α).Sound := sound_start generator
  have hstart : Holds _ [] := hsound.holds rfl fun x hx => absurd hx List.not_mem_nil
  exact ⟨hstart.traces hsound actions hdraws, evict_eq_evictWith⟩

/-- The theorem at a run in which the last element takes the place of the first, a slot is used
again, and the last position is drawn. -/
theorem traces_vector_swapped :
    Traces [] ({ generator := Generator.ofSeed 7 } : RandomPolicy Nat)
      [.add 1, .add 2, .add 3, .remove ⟨0, 0⟩, .add 4, .update ⟨2, 0⟩ 9,
        .evict fun n => (n - 1, Generator.ofSeed 7), .remove ⟨0, 1⟩, .clear] := by
  refine (traces_vector _ _ fun draw hdraw n hn => ?_).1
  have hlast : draw = fun n => (n - 1, Generator.ofSeed 7) := by simpa using hdraw
  rw [hlast]
  exact Nat.sub_lt hn Nat.one_pos

end RandomPolicy

end BoundedCache
