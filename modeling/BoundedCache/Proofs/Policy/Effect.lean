import BoundedCache.Proofs.Slab

/-!
# What an operation does to the elements of a policy

The elements of a policy are a partial function from indices.  The statements below
are those that the theory of the store rests on, one for each operation: how the
function after the operation, and the answer, follow from the function before.  They
leave open which element is evicted, and in which order elements are listed, since
that is where the policies differ.
-/

namespace BoundedCache

variable {α β : Type} {f g : Index → Option α} {i : Index} {element : α}

/-- The element comes in at an index that was not live. -/
structure Adds (f : Index → Option α) (element : α) (i : Index) (g : Index → Option α) :
    Prop where
  fresh : f i = none
  after : g = Function.update f i (some element)

/-- The element at a live index is replaced; a stale one is rejected. -/
structure Replaces (f : Index → Option α) (i : Index) (element : α) (done : Bool)
    (g : Index → Option α) : Prop where
  answer : done = (f i).isSome
  after : g = Function.update f i ((f i).map fun _ => element)

/-- The element at the index is taken out and handed over. -/
structure Removes (f : Index → Option α) (i : Index) (removed : Option α)
    (g : Index → Option α) : Prop where
  answer : removed = f i
  after : g = Function.update f i none

/-- Some element is taken out and handed over, unless there is none. -/
inductive Evicts (f : Index → Option α) : Option α → (Index → Option α) → Prop where
  | victim {i : Index} {element : α} :
      f i = some element → Evicts f (some element) (Function.update f i none)
  | exhausted : (∀ i, f i = none) → Evicts f none f

theorem Evicts.of_none (h : Evicts f none g) : (∀ i, f i = none) ∧ g = f := by
  cases h with
  | exhausted hnone => exact ⟨hnone, rfl⟩

theorem Evicts.of_some (h : Evicts f (some element) g) :
    ∃ i, f i = some element ∧ g = Function.update f i none := by
  cases h with
  | victim hi => exact ⟨_, hi, rfl⟩

/-- Removing any live element is a way to evict. -/
theorem Removes.evicts {removed : Option α} (h : Removes f i removed g)
    (hi : f i = some element) : Evicts f removed g := by
  rw [h.answer, h.after, hi]
  exact .victim hi

/-- The list holds every element, once for each index. -/
def Lists (f : Index → Option α) (elements : List α) : Prop :=
  ∃ items, Enumerates items f ∧ elements.Perm (items.map Prod.snd)

theorem Enumerates.lists {items : List (Index × α)} (h : Enumerates items f) :
    Lists f (items.map Prod.snd) :=
  ⟨items, h, List.Perm.refl _⟩

theorem Lists.of_perm {elements elements' : List α} (h : Lists f elements)
    (hperm : elements'.Perm elements) : Lists f elements' := by
  obtain ⟨items, hitems, helements⟩ := h
  exact ⟨items, hitems, hperm.trans helements⟩

theorem Lists.perm {elements elements' : List α} (h : Lists f elements)
    (h' : Lists f elements') : elements.Perm elements' := by
  obtain ⟨items, hitems, helements⟩ := h
  obtain ⟨items', hitems', helements'⟩ := h'
  exact helements.trans (((hitems.perm hitems').map _).trans helements'.symm)

/-- What is enumerated at the same indices can be enumerated in the same order. -/
theorem Enumerates.reread {items : List (Index × β)} {h : Index → Option β}
    (hitems : Enumerates items h) (hlive : ∀ i, (h i).isSome = (f i).isSome) :
    ∃ items', Enumerates items' f ∧ items'.map Prod.fst = items.map Prod.fst := by
  have hfirst : ((items.map Prod.fst).filterMap fun i => (f i).map (Prod.mk i)).map Prod.fst =
      items.map Prod.fst := by
    rw [List.map_filterMap]
    refine (List.filterMap_congr fun i hi => ?_).trans List.filterMap_some
    obtain ⟨⟨j, b⟩, hmem, rfl⟩ := List.mem_map.mp hi
    have hj := hlive j
    rw [(hitems.mem_iff j b).mp hmem, Option.isSome_some] at hj
    obtain ⟨a, ha⟩ := Option.isSome_iff_exists.mp hj.symm
    simp [ha]
  refine ⟨_, ⟨?_, ?_⟩, hfirst⟩
  · rw [hfirst]
    exact hitems.nodup
  · intro i a
    simp only [List.mem_filterMap, Option.map_eq_some_iff, Prod.mk.injEq]
    constructor
    · rintro ⟨j, -, b, hj, rfl, rfl⟩
      exact hj
    · intro hi
      have hlive' := hlive i
      rw [hi, Option.isSome_some] at hlive'
      obtain ⟨b, hb⟩ := Option.isSome_iff_exists.mp hlive'
      exact ⟨i, List.mem_map.mpr ⟨(i, b), (hitems.mem_iff i b).mpr hb, rfl⟩, a, hi, rfl, rfl⟩

/-- Reading the elements at the listed indices lists the elements. -/
theorem Enumerates.lists_filterMap {items : List (Index × β)} {h : Index → Option β}
    (hitems : Enumerates items h) (hlive : ∀ i, (h i).isSome = (f i).isSome) :
    Lists f ((items.map Prod.fst).filterMap f) := by
  obtain ⟨items', hitems', hsame⟩ := hitems.reread hlive
  exact ⟨items', hitems', .of_eq (hsame ▸ hitems'.filterMap_eq)⟩

/-! ## Slabs of elements with data of their own

Three policies keep each element in a slab, together with what they need to know about
it.  `field` reads the element.
-/

namespace Slab

variable {s : Slab β} (field : β → α)

/-- The elements of a slab, as a policy shows them. -/
def elements (s : Slab β) (field : β → α) (i : Index) : Option α := (s.get? i).map field

theorem elements_eq (s : Slab β) : s.elements field = Option.map field ∘ s.get? := rfl

theorem elements_of_get? {value : β} (hget : s.get? i = some value) :
    s.elements field i = some (field value) := by
  rw [elements, hget]
  rfl

theorem elements_of_stale (hget : s.get? i = none) : s.elements field i = none := by
  rw [elements, hget]
  rfl

theorem contains_eq (s : Slab β) (i : Index) : s.contains i = (s.elements field i).isSome := by
  rw [elements, Option.isSome_map]
  rfl

theorem WellFormed.adds (h : s.WellFormed) (value : β) :
    Adds (s.elements field) (field value) (s.insert value).1
      ((s.insert value).2.elements field) := by
  obtain ⟨hfresh, hafter⟩ := h.get?_insert value
  refine ⟨by rw [elements, hfresh]; rfl, ?_⟩
  rw [elements_eq, elements_eq, hafter, Function.comp_update]
  rfl

theorem removes (s : Slab β) (i : Index) :
    Removes (s.elements field) i ((s.remove i).1.map field)
      ((s.remove i).2.elements field) := by
  obtain ⟨hanswer, hafter⟩ := s.get?_remove i
  refine ⟨by rw [hanswer]; rfl, ?_⟩
  rw [elements_eq, elements_eq, hafter, Function.comp_update]
  rfl

theorem replaces (s : Slab β) (i : Index) (element : α) (change : β → β)
    (hchange : ∀ b, field (change b) = element) :
    Replaces (s.elements field) i element (s.contains i) ((s.modify i change).elements field) := by
  refine ⟨s.contains_eq field i, ?_⟩
  rw [elements_eq, elements_eq, get?_modify, Function.comp_update]
  cases hget : s.get? i with
  | none => simp [hget]
  | some b => simp [hget, hchange]

/-- Changing the data of an element leaves the elements alone. -/
theorem elements_modify (s : Slab β) (i : Index) (change : β → β)
    (hchange : ∀ b, field (change b) = field b) :
    (s.modify i change).elements field = s.elements field := by
  rw [elements_eq, elements_eq, get?_modify, Function.comp_update, Option.map_map]
  refine Function.update_eq_self_iff.mpr ?_
  exact Option.map_congr fun b _ => hchange b

theorem lists_toList (s : Slab β) :
    Lists (s.elements field) (s.toList.map fun x => field x.2) := by
  have hlists := (s.enumerates_toList.map field).lists
  rw [List.map_map] at hlists
  exact hlists

/-- A list of all elements is as long as the slab says. -/
theorem WellFormed.size_eq_of_lists (h : s.WellFormed) {listed : List α}
    (hlisted : Lists (s.elements field) listed) : s.size = listed.length := by
  rw [h.size_eq, (hlisted.perm (s.lists_toList field)).length_eq, List.length_map]

theorem WellFormed.clear_elements (h : s.WellFormed) :
    Lists (s.elements field) (s.clear.1.map field) ∧
      (s.clear.2.elements field = fun _ => none) := by
  obtain ⟨hanswer, -, hafter⟩ := h.clear
  refine ⟨?_, by rw [elements_eq, hafter]; rfl⟩
  rw [hanswer, List.map_map]
  exact s.lists_toList field

end Slab

end BoundedCache
