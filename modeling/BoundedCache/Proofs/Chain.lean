import BoundedCache.Chain
import BoundedCache.Proofs.Slab
import Mathlib.Data.List.Induction

/-!
# Chains represent sequences

`Represents c items` says that the chain `c` stands for the sequence `items` of
elements with their indices: the links of the nodes follow it in both directions, its
two ends are the ends of `c`, and it enumerates the live nodes.

`Segment` is the statement about the links for a part of the sequence, given what
comes before and after it.  All surgery comes down to two moves, `joinAfter` and
`joinBefore`, which give the left neighbour of a gap a new next node and the right
one a new previous node; `Segment.joinAfter` and `Segment.joinBefore` say what they do
to the segments on either side.

Every operation then acts on `items` as the operation on sequences of the same name,
and `toList` and `toListRev` read the sequence off the links.
-/

namespace BoundedCache

/-! ## The ends of a sequence -/

/-- The index of the first item. -/
def firstIndex {α : Type} (items : List (Index × α)) : Option Index := items.head?.map Prod.fst

/-- The index of the last item. -/
def lastIndex {α : Type} (items : List (Index × α)) : Option Index :=
  items.getLast?.map Prod.fst

section

variable {α : Type} (x : Index × α) (items others : List (Index × α))

@[simp] theorem firstIndex_nil : firstIndex ([] : List (Index × α)) = none := rfl

@[simp] theorem lastIndex_nil : lastIndex ([] : List (Index × α)) = none := rfl

@[simp] theorem firstIndex_cons : firstIndex (x :: items) = some x.1 := rfl

@[simp] theorem lastIndex_concat : lastIndex (items ++ [x]) = some x.1 := by
  simp [lastIndex]

theorem firstIndex_append :
    firstIndex (items ++ others) = (firstIndex items).or (firstIndex others) := by
  cases items <;> simp [firstIndex]

theorem lastIndex_append :
    lastIndex (items ++ others) = (lastIndex others).or (lastIndex items) := by
  rcases others.eq_nil_or_concat with rfl | ⟨front, y, rfl⟩
  · simp [lastIndex]
  · rw [List.concat_eq_append, ← List.append_assoc, lastIndex_concat, lastIndex_concat,
      Option.some_or]

theorem lastIndex_cons : lastIndex (x :: items) = (lastIndex items).or (some x.1) :=
  lastIndex_append [x] items

variable {x items}

/-- An index without an item is none of those of the items. -/
theorem ne_of_mem {i : Index} (hx : x ∈ items) (hi : i ∉ items.map Prod.fst) : x.1 ≠ i := by
  intro heq
  apply hi
  rw [← heq]
  exact List.mem_map_of_mem hx

end

namespace Chain

variable {α : Type} {nodes nodes' : Slab (Node α)} {before after : Option Index}
variable {items : List (Index × α)}

/-! ## Segments -/

/-- The nodes of `items` are linked to each other in this order, with `before` and
`after` as the neighbours of the whole. -/
def Segment (nodes : Slab (Node α)) (before : Option Index) :
    List (Index × α) → (after : Option Index) → Prop
  | [], _ => True
  | x :: rest, after =>
      nodes.get? x.1 = some ⟨x.2, before, (firstIndex rest).or after⟩ ∧
        Segment nodes (some x.1) rest after

/-- A segment reads only its own nodes. -/
theorem Segment.frame (h : Segment nodes before items after)
    (hsame : ∀ x ∈ items, nodes'.get? x.1 = nodes.get? x.1) :
    Segment nodes' before items after := by
  induction items generalizing before with
  | nil => trivial
  | cons x rest ih =>
      refine ⟨(hsame x List.mem_cons_self).trans h.1, ih h.2 fun y hy => ?_⟩
      exact hsame y (List.mem_cons_of_mem _ hy)

theorem segment_append {first second : List (Index × α)} :
    Segment nodes before (first ++ second) after ↔
      Segment nodes before first ((firstIndex second).or after) ∧
        Segment nodes ((lastIndex first).or before) second after := by
  induction first generalizing before with
  | nil => simp [Segment]
  | cons x rest ih =>
      have hlast : (lastIndex (x :: rest)).or before = (lastIndex rest).or (some x.1) := by
        rw [lastIndex_cons, Option.or_assoc, Option.some_or]
      simp only [List.cons_append, Segment, ih, firstIndex_append, Option.or_assoc, hlast,
        and_assoc]

/-- Reading along the forward links gives the segment, item by item. -/
theorem Segment.walkForward {c : Chain α} (h : Segment c.nodes before items none) (fuel : Nat) :
    c.walkForward fuel (firstIndex items) = items.take fuel := by
  induction items generalizing before fuel with
  | nil => cases fuel <;> rfl
  | cons x rest ih =>
      cases fuel with
      | zero => rfl
      | succ fuel =>
          simp only [firstIndex_cons, Chain.walkForward, h.1, Option.or_none]
          rw [ih h.2, List.take_succ_cons]

/-- Reading along the backward links gives the segment in reverse. -/
theorem Segment.walkBackward {c : Chain α} (h : Segment c.nodes none items after) (fuel : Nat) :
    c.walkBackward fuel (lastIndex items) = items.reverse.take fuel := by
  -- the walk starts at the last item, so the induction takes items off the end
  induction items using List.reverseRecOn generalizing after fuel with
  | nil => cases fuel <;> rfl
  | append_singleton front x ih =>
      obtain ⟨hfront, hx, -⟩ := segment_append.mp h
      cases fuel with
      | zero => rfl
      | succ fuel =>
          simp only [lastIndex_concat, Chain.walkBackward, hx, Option.or_none]
          rw [ih hfront, List.reverse_concat, List.take_succ_cons]

/-! ## Surgery -/

/-- Set the links of node `i`. -/
def place (c : Chain α) (i : Index) (prev next : Option Index) : Chain α :=
  { c with nodes := c.nodes.modify i fun node => { node with prev := prev, next := next } }

/-- Give the node `prev` the next node `next`; if there is no such node, `next` is the
new head. -/
def joinAfter (c : Chain α) (prev next : Option Index) : Chain α :=
  match c.liveEnd prev with
  | some p => { c with nodes := c.nodes.modify p fun node => { node with next := next } }
  | none => { c with head := next }

/-- Give the node `next` the previous node `prev`; if there is no such node, `prev` is
the new tail. -/
def joinBefore (c : Chain α) (prev next : Option Index) : Chain α :=
  match c.liveEnd next with
  | some n => { c with nodes := c.nodes.modify n fun node => { node with prev := prev } }
  | none => { c with tail := prev }

variable {c c' : Chain α} {i : Index} {value : α}

theorem unlink?_eq (c : Chain α) (i : Index) :
    c.unlink? i = (c.nodes.get? i).map fun node =>
      ((c.place i none none).joinAfter node.prev node.next).joinBefore node.prev node.next := by
  unfold unlink?
  cases c.nodes.get? i <;> rfl

theorem linkBack_eq (c : Chain α) (i : Index) :
    c.linkBack i = ((c.place i c.tail none).joinAfter c.tail (some i)).joinBefore (some i) none :=
  rfl

theorem linkFront_eq (c : Chain α) (i : Index) :
    c.linkFront i =
      ((c.place i none c.head).joinBefore (some i) c.head).joinAfter none (some i) :=
  rfl

@[simp] theorem joinAfter_none (c : Chain α) (next : Option Index) :
    c.joinAfter none next = { c with head := next } := rfl

@[simp] theorem joinBefore_none (c : Chain α) (prev : Option Index) :
    c.joinBefore prev none = { c with tail := prev } := rfl

/-- The chains have the same elements at the same indices and differ in links only. -/
structure Relinked (c c' : Chain α) : Prop where
  wellFormed : c.nodes.WellFormed → c'.nodes.WellFormed
  get?_eq : c'.get? = c.get?

theorem Relinked.trans {c'' : Chain α} (h : Relinked c c') (h' : Relinked c' c'') :
    Relinked c c'' :=
  ⟨fun hwf => h'.wellFormed (h.wellFormed hwf), h'.get?_eq.trans h.get?_eq⟩

/-- Changing the links of a node leaves the elements alone. -/
theorem relinked_modify {change : Node α → Node α} (hnodes : c'.nodes = c.nodes.modify i change)
    (hvalue : ∀ node, (change node).value = node.value) : Relinked c c' where
  wellFormed hwf := by
    rw [hnodes]
    exact hwf.modify i change
  get?_eq := by
    funext j
    simp only [get?, hnodes, Slab.get?_modify]
    by_cases hj : j = i
    · subst hj
      rw [Function.update_self, Option.map_map]
      exact Option.map_congr fun node _ => hvalue node
    · rw [Function.update_of_ne hj]

theorem relinked_place (c : Chain α) (i : Index) (prev next : Option Index) :
    Relinked c (c.place i prev next) :=
  relinked_modify rfl fun _ => rfl

theorem relinked_joinAfter (c : Chain α) (prev next : Option Index) :
    Relinked c (c.joinAfter prev next) := by
  unfold joinAfter
  split
  · exact relinked_modify rfl fun _ => rfl
  · exact ⟨id, rfl⟩

theorem relinked_joinBefore (c : Chain α) (prev next : Option Index) :
    Relinked c (c.joinBefore prev next) := by
  unfold joinBefore
  split
  · exact relinked_modify rfl fun _ => rfl
  · exact ⟨id, rfl⟩

theorem liveEnd_of_get? {node : Node α} (hget : c.nodes.get? i = some node) :
    c.liveEnd (some i) = some i := by
  simp [liveEnd, contains, Slab.contains, hget]

/-- What `joinAfter` does to the nodes on the left of a gap, and to all others. -/
theorem Segment.joinAfter {left : List (Index × α)} (h : Segment c.nodes none left after)
    (hnodup : (left.map Prod.fst).Nodup) (hhead : left ≠ [] → c.head = firstIndex left)
    (next : Option Index) :
    Segment (c.joinAfter (lastIndex left) next).nodes none left next ∧
      (c.joinAfter (lastIndex left) next).head = (firstIndex left).or next ∧
      (c.joinAfter (lastIndex left) next).tail = c.tail ∧
      ∀ j, j ∉ left.map Prod.fst →
        (c.joinAfter (lastIndex left) next).nodes.get? j = c.nodes.get? j := by
  rcases left.eq_nil_or_concat with rfl | ⟨front, ⟨p, value⟩, rfl⟩
  · exact ⟨trivial, rfl, rfl, fun _ _ => rfl⟩
  · rw [List.concat_eq_append] at h hnodup hhead ⊢
    obtain ⟨hfront, hp, -⟩ := segment_append.mp h
    have hlive : c.liveEnd (lastIndex (front ++ [(p, value)])) = some p := by
      rw [lastIndex_concat]
      exact liveEnd_of_get? hp
    have hnot : p ∉ front.map Prod.fst := by
      rw [List.map_append, List.nodup_append] at hnodup
      exact fun hmem => hnodup.2.2 p hmem p (by simp) rfl
    simp only [Chain.joinAfter, hlive]
    refine ⟨segment_append.mpr ⟨hfront.frame fun x hx => ?_, ?_, trivial⟩, ?_, trivial,
      fun j hj => ?_⟩
    · rw [Slab.get?_modify, Function.update_of_ne (ne_of_mem hx hnot)]
    · rw [Slab.get?_modify, Function.update_self, hp]
      rfl
    · rw [hhead (by simp), firstIndex_append]
      cases firstIndex front <;> rfl
    · have hne : j ≠ p := by
        rintro rfl
        exact hj (by simp)
      rw [Slab.get?_modify, Function.update_of_ne hne]

/-- What `joinBefore` does to the nodes on the right of a gap, and to all others. -/
theorem Segment.joinBefore {right : List (Index × α)} (h : Segment c.nodes before right none)
    (hnodup : (right.map Prod.fst).Nodup) (htail : right ≠ [] → c.tail = lastIndex right)
    (prev : Option Index) :
    Segment (c.joinBefore prev (firstIndex right)).nodes prev right none ∧
      (c.joinBefore prev (firstIndex right)).tail = (lastIndex right).or prev ∧
      (c.joinBefore prev (firstIndex right)).head = c.head ∧
      ∀ j, j ∉ right.map Prod.fst →
        (c.joinBefore prev (firstIndex right)).nodes.get? j = c.nodes.get? j := by
  cases right with
  | nil => exact ⟨trivial, rfl, rfl, fun _ _ => rfl⟩
  | cons x rest =>
      obtain ⟨n, value⟩ := x
      obtain ⟨hn, hrest⟩ := h
      obtain ⟨hnot, -⟩ := List.nodup_cons.mp hnodup
      have hlive : c.liveEnd (firstIndex ((n, value) :: rest)) = some n := liveEnd_of_get? hn
      simp only [Chain.joinBefore, hlive]
      refine ⟨⟨?_, hrest.frame fun x hx => ?_⟩, ?_, trivial, fun j hj => ?_⟩
      · rw [Slab.get?_modify, Function.update_self, hn]
        rfl
      · rw [Slab.get?_modify, Function.update_of_ne (ne_of_mem hx hnot)]
      · rw [htail (by simp), lastIndex_cons, Option.or_assoc, Option.some_or]
      · have hne : j ≠ n := by
          rintro rfl
          exact hj (by simp)
        rw [Slab.get?_modify, Function.update_of_ne hne]

/-! ## Linking and unlinking -/

/-- The links of the chain follow the items, from its head to its tail and back.  Nodes
that stand outside may be live. -/
structure Linked (c : Chain α) (items : List (Index × α)) : Prop where
  segment : Segment c.nodes none items none
  head_eq : c.head = firstIndex items
  tail_eq : c.tail = lastIndex items

/-- Nodes outside the sequence do not matter. -/
theorem Linked.frame (h : Linked c items)
    (hsame : ∀ j ∈ items.map Prod.fst, c'.nodes.get? j = c.nodes.get? j)
    (hhead : c'.head = c.head) (htail : c'.tail = c.tail) : Linked c' items where
  segment := h.segment.frame fun x hx => hsame x.1 (List.mem_map.mpr ⟨x, hx, rfl⟩)
  head_eq := hhead.trans h.head_eq
  tail_eq := htail.trans h.tail_eq

theorem get?_place_of_ne {j : Index} (hj : j ≠ i) (prev next : Option Index) :
    (c.place i prev next).nodes.get? j = c.nodes.get? j := by
  rw [place, Slab.get?_modify, Function.update_of_ne hj]

theorem get?_place (hget : c.get? i = some value) (prev next : Option Index) :
    (c.place i prev next).nodes.get? i = some ⟨value, prev, next⟩ := by
  obtain ⟨node, hnode, rfl⟩ := Option.map_eq_some_iff.mp hget
  rw [place, Slab.get?_modify, Function.update_self, hnode]
  rfl

theorem Linked.place (h : Linked c items) (hi : i ∉ items.map Prod.fst)
    (prev next : Option Index) : Linked (c.place i prev next) items := by
  refine h.frame (fun j hj => get?_place_of_ne ?_ prev next) rfl rfl
  rintro rfl
  exact hi hj

/-- Taking a node out of the middle joins what is left and right of it. -/
theorem Linked.unlink? {left right : List (Index × α)}
    (h : Linked c (left ++ (i, value) :: right))
    (hnodup : ((left ++ (i, value) :: right).map Prod.fst).Nodup) :
    ∃ c', c.unlink? i = some c' ∧ Linked c' (left ++ right) ∧ Relinked c c' := by
  obtain ⟨hleft, hi, hright⟩ := segment_append.mp h.segment
  simp only [Option.or_none, firstIndex_cons] at hi hleft
  rw [List.map_append, List.map_cons, List.nodup_append] at hnodup
  obtain ⟨hnodupLeft, hnodupRight, hdisjoint⟩ := hnodup
  obtain ⟨hiRight, hnodupRight⟩ := List.nodup_cons.mp hnodupRight
  have hiLeft : i ∉ left.map Prod.fst := fun hmem => hdisjoint i hmem i List.mem_cons_self rfl
  -- the node loses its links, and both sides are as before
  have hleft₀ : Segment (c.place i none none).nodes none left (some i) := by
    exact hleft.frame fun x hx => get?_place_of_ne (ne_of_mem hx hiLeft) none none
  have hright₀ : Segment (c.place i none none).nodes (some i) right none := by
    exact hright.frame fun x hx => get?_place_of_ne (ne_of_mem hx hiRight) none none
  have hhead₀ : left ≠ [] → (c.place i none none).head = firstIndex left := by
    intro hne
    refine h.head_eq.trans ?_
    rw [firstIndex_append]
    cases left with
    | nil => exact absurd rfl hne
    | cons x rest => rfl
  -- the left side is joined to the right one, then the right side to the left one
  obtain ⟨hleft₁, hhead₁, htail₁, hframe₁⟩ :=
    hleft₀.joinAfter hnodupLeft hhead₀ (firstIndex right)
  have hright₁ : Segment ((c.place i none none).joinAfter (lastIndex left)
      (firstIndex right)).nodes (some i) right none := by
    refine hright₀.frame fun x hx => hframe₁ _ fun hmem => ?_
    exact hdisjoint _ hmem _ (List.mem_cons_of_mem _ (List.mem_map.mpr ⟨x, hx, rfl⟩)) rfl
  have htail₂ : right ≠ [] → ((c.place i none none).joinAfter (lastIndex left)
      (firstIndex right)).tail = lastIndex right := by
    intro hne
    refine htail₁.trans (h.tail_eq.trans ?_)
    rw [lastIndex_append, lastIndex_cons]
    cases hlast : lastIndex right with
    | none => exact absurd (by simpa [lastIndex] using hlast) hne
    | some j => rfl
  obtain ⟨hright₂, htail₂, hhead₂, hframe₂⟩ :=
    hright₁.joinBefore hnodupRight htail₂ (lastIndex left)
  refine ⟨_, by rw [unlink?_eq, hi]; rfl, ⟨?_, ?_, ?_⟩, ?_⟩
  · refine segment_append.mpr ⟨?_, by simpa using hright₂⟩
    refine Segment.frame (by simpa using hleft₁) fun x hx => ?_
    refine hframe₂ _ fun hmem => ?_
    exact hdisjoint _ (List.mem_map.mpr ⟨x, hx, rfl⟩) _ (List.mem_cons_of_mem _ hmem) rfl
  · rw [firstIndex_append]
    exact hhead₂.trans hhead₁
  · rw [lastIndex_append]
    exact htail₂
  · exact ((relinked_place c i none none).trans (relinked_joinAfter _ _ _)).trans
      (relinked_joinBefore _ _ _)

/-- A live node outside the sequence can be given the last place. -/
theorem Linked.linkBack (h : Linked c items) (hnodup : (items.map Prod.fst).Nodup)
    (hi : i ∉ items.map Prod.fst) (hget : c.get? i = some value) :
    Linked (c.linkBack i) (items ++ [(i, value)]) ∧ Relinked c (c.linkBack i) := by
  -- the new node is placed while it still stands outside, where links do not matter
  have h₀ := h.place hi c.tail none
  obtain ⟨hleft, hhead, -, hframe⟩ :=
    h₀.segment.joinAfter hnodup (fun _ => h₀.head_eq) (some i)
  rw [linkBack_eq, h.tail_eq] at *
  refine ⟨⟨segment_append.mpr ⟨?_, ?_, trivial⟩, ?_, ?_⟩, ?_⟩
  · simpa using hleft
  · have hnode := (hframe i hi).trans (get?_place hget (lastIndex items) none)
    simpa using hnode
  · rw [firstIndex_append]
    exact hhead
  · rw [lastIndex_append]
    rfl
  · exact ((relinked_place c i _ _).trans (relinked_joinAfter _ _ _)).trans
      (relinked_joinBefore _ _ _)

/-- A live node outside the sequence can be given the first place. -/
theorem Linked.linkFront (h : Linked c items) (hnodup : (items.map Prod.fst).Nodup)
    (hi : i ∉ items.map Prod.fst) (hget : c.get? i = some value) :
    Linked (c.linkFront i) ((i, value) :: items) ∧ Relinked c (c.linkFront i) := by
  have h₀ := h.place hi none c.head
  obtain ⟨hright, htail, -, hframe⟩ :=
    h₀.segment.joinBefore hnodup (fun _ => h₀.tail_eq) (some i)
  rw [linkFront_eq, h.head_eq] at *
  refine ⟨⟨⟨?_, ?_⟩, ?_, ?_⟩, ?_⟩
  · have hnode := (hframe i hi).trans (get?_place hget none (firstIndex items))
    simpa using hnode
  · exact hright
  · rfl
  · rw [lastIndex_cons]
    exact htail
  · exact ((relinked_place c i _ _).trans (relinked_joinBefore _ _ _)).trans
      (relinked_joinAfter _ _ _)

/-! ## What a chain stands for -/

/-- The chain stands for the sequence: its slab is sound, its links follow the items, and
nothing else is live. -/
structure Represents (c : Chain α) (items : List (Index × α)) : Prop where
  wellFormed : c.nodes.WellFormed
  linked : Linked c items
  enumerates : Enumerates items c.get?

theorem represents_empty : Represents (empty : Chain α) [] where
  wellFormed := Slab.wellFormed_empty
  linked := ⟨trivial, rfl, rfl⟩
  enumerates := .nil

theorem enumerates_nodes (c : Chain α) :
    Enumerates (c.nodes.toList.map fun x => (x.1, x.2.value)) c.get? :=
  c.nodes.enumerates_toList.map (·.value)

theorem Represents.size_eq (h : Represents c items) : c.size = items.length := by
  rw [size, h.wellFormed.size_eq, (h.enumerates.perm c.enumerates_nodes).length_eq,
    List.length_map]

/-- The forward links read the sequence, and end with it. -/
theorem Represents.walkForward_eq (h : Represents c items) (fuel : Nat) :
    c.walkForward fuel c.head = items.take fuel := by
  rw [h.linked.head_eq]
  exact h.linked.segment.walkForward fuel

/-- The backward links read the sequence from its end, and end at its start. -/
theorem Represents.walkBackward_eq (h : Represents c items) (fuel : Nat) :
    c.walkBackward fuel c.tail = items.reverse.take fuel := by
  rw [h.linked.tail_eq]
  exact h.linked.segment.walkBackward fuel

theorem Represents.toList_eq (h : Represents c items) : c.toList = items := by
  rw [toList, h.walkForward_eq, h.size_eq, List.take_length]

theorem Represents.toListRev_eq (h : Represents c items) : c.toListRev = items.reverse := by
  rw [toListRev, h.walkBackward_eq, h.size_eq, ← List.length_reverse, List.take_length]

/-- A live index has a place in the sequence. -/
theorem Represents.exists_append (h : Represents c items) (hget : c.get? i = some value) :
    ∃ left right, items = left ++ (i, value) :: right :=
  List.append_of_mem ((h.enumerates.mem_iff i value).mpr hget)

theorem get?_of_nodes (c c' : Chain α) {node? : Option (Node α)}
    (hnodes : c'.nodes.get? = Function.update c.nodes.get? i node?) :
    c'.get? = Function.update c.get? i (node?.map (·.value)) := by
  funext j
  simp only [get?, hnodes]
  by_cases hj : j = i
  · rw [hj, Function.update_self, Function.update_self]
  · rw [Function.update_of_ne hj, Function.update_of_ne hj]
    rfl

/-- Changing the links of the nodes leaves the elements alone. -/
theorem Represents.relink (h : Represents c items) (hrelinked : Relinked c c')
    {items' : List (Index × α)} (hlinked : Linked c' items') (hperm : items.Perm items') :
    Represents c' items' where
  wellFormed := hrelinked.wellFormed h.wellFormed
  linked := hlinked
  enumerates := by
    rw [hrelinked.get?_eq]
    exact h.enumerates.of_perm hperm

/-! ## Adding elements -/

/-- The chain with a new node that stands outside the sequence. -/
theorem Represents.insert (h : Represents c items) (value : α) :
    let c' := { c with nodes := (c.nodes.insert { value := value }).2 }
    let i := (c.nodes.insert { value := value }).1
    c'.nodes.WellFormed ∧ Linked c' items ∧ c.get? i = none ∧ i ∉ items.map Prod.fst ∧
      c'.get? = Function.update c.get? i (some value) := by
  intro c' i
  obtain ⟨hfresh, hnodes⟩ := h.wellFormed.get?_insert { value := value }
  have hget : c.get? i = none := by
    rw [get?, hfresh]
    rfl
  have hi : i ∉ items.map Prod.fst := by
    intro hmem
    obtain ⟨⟨j, other⟩, hitem, rfl⟩ := List.mem_map.mp hmem
    have := (h.enumerates.mem_iff _ other).mp hitem
    rw [hget] at this
    exact Option.some_ne_none other this.symm
  have hnew : c'.get? = Function.update c.get? i (some value) := get?_of_nodes c c' hnodes
  refine ⟨h.wellFormed.insert _, h.linked.frame (fun j hj => ?_) rfl rfl, hget, hi, hnew⟩
  have hne : j ≠ i := by
    rintro rfl
    exact hi hj
  rw [hnodes, Function.update_of_ne hne]

/-- A new element goes to the end of the sequence, at an index that was not live. -/
theorem Represents.pushBack (h : Represents c items) (value : α) :
    c.get? (c.pushBack value).1 = none ∧
      Represents (c.pushBack value).2 (items ++ [((c.pushBack value).1, value)]) := by
  obtain ⟨hwf, hlinked, hget, hi, hnew⟩ := h.insert value
  have hlive := (congrFun hnew _).trans (Function.update_self _ _ _)
  obtain ⟨hlinked', hrelinked⟩ := hlinked.linkBack h.enumerates.nodup hi hlive
  refine ⟨hget, hrelinked.wellFormed hwf, hlinked', ?_⟩
  refine Enumerates.of_perm ?_ (List.perm_append_singleton (_, value) items).symm
  have hsame := hrelinked.get?_eq.trans hnew
  rw [show (c.pushBack value).2.get? = _ from hsame]
  exact h.enumerates.insert hget value

/-- A new element goes to the front of the sequence, at an index that was not live. -/
theorem Represents.pushFront (h : Represents c items) (value : α) :
    c.get? (c.pushFront value).1 = none ∧
      Represents (c.pushFront value).2 (((c.pushFront value).1, value) :: items) := by
  obtain ⟨hwf, hlinked, hget, hi, hnew⟩ := h.insert value
  have hlive := (congrFun hnew _).trans (Function.update_self _ _ _)
  obtain ⟨hlinked', hrelinked⟩ := hlinked.linkFront h.enumerates.nodup hi hlive
  refine ⟨hget, hrelinked.wellFormed hwf, hlinked', ?_⟩
  have hsame := hrelinked.get?_eq.trans hnew
  rw [show (c.pushFront value).2.get? = _ from hsame]
  exact h.enumerates.insert hget value

/-! ## Taking elements out -/

theorem remove_of_stale (hget : c.get? i = none) : c.remove i = (none, c) := by
  have hnode : c.nodes.get? i = none := Option.map_eq_none_iff.mp hget
  simp [remove, unlink?_eq, hnode]

/-- What is taken out leaves a gap that its neighbours close. -/
theorem Represents.remove {left right : List (Index × α)}
    (h : Represents c (left ++ (i, value) :: right)) :
    (c.remove i).1 = some value ∧ Represents (c.remove i).2 (left ++ right) := by
  -- first the links close the gap, then the node that nothing leads to any more is freed
  obtain ⟨c', hunlink, hlinked, hrelinked⟩ := h.linked.unlink? h.enumerates.nodup
  obtain ⟨hremoved, hnodes⟩ := c'.nodes.get?_remove i
  have hmem : (i, value) ∈ left ++ (i, value) :: right := by simp
  have hget : c'.get? i = some value := by
    rw [hrelinked.get?_eq]
    exact (h.enumerates.mem_iff i value).mp hmem
  have hperm : (left ++ (i, value) :: right).Perm ((i, value) :: (left ++ right)) :=
    List.perm_middle
  have henumerates := h.enumerates.of_perm hperm
  simp only [Chain.remove, hunlink]
  refine ⟨?_, (hrelinked.wellFormed h.wellFormed).remove i, hlinked.frame (fun j hj => ?_) rfl rfl,
    ?_⟩
  · rw [hremoved]
    exact hget
  · have hne : j ≠ i := by
      rintro rfl
      obtain ⟨⟨j, other⟩, hitem, rfl⟩ := List.mem_map.mp hj
      exact henumerates.not_mem_of_cons other hitem
    rw [hnodes, Function.update_of_ne hne]
  · have hsame := get?_of_nodes c' { c' with nodes := (c'.nodes.remove i).2 } hnodes
    rw [hsame, hrelinked.get?_eq]
    exact henumerates.erase

theorem Represents.popFront_nil (h : Represents c []) : c.popFront = (none, c) := by
  simp [Chain.popFront, h.linked.head_eq]

theorem Represents.popBack_nil (h : Represents c []) : c.popBack = (none, c) := by
  simp [Chain.popBack, h.linked.tail_eq]

theorem Represents.popFront_cons (h : Represents c ((i, value) :: items)) :
    c.popFront.1 = some value ∧ Represents c.popFront.2 items := by
  rw [Chain.popFront, h.linked.head_eq]
  have hfirst : Represents c ([] ++ (i, value) :: items) := h
  exact hfirst.remove

theorem Represents.popBack_concat (h : Represents c (items ++ [(i, value)])) :
    c.popBack.1 = some value ∧ Represents c.popBack.2 items := by
  have hremove := Represents.remove h
  rw [List.append_nil] at hremove
  rw [Chain.popBack, h.linked.tail_eq, lastIndex_concat]
  exact hremove

/-- Taking out from the front as often as there are elements takes out all of them, in
order. -/
theorem Represents.clearLoop (h : Represents c items) {fuel : Nat} (hfuel : items.length ≤ fuel) :
    (clearLoop fuel c).1 = items.map Prod.snd ∧ Represents (clearLoop fuel c).2 [] := by
  induction items generalizing c fuel with
  | nil =>
      cases fuel with
      | zero => exact ⟨rfl, h⟩
      | succ fuel =>
          simp only [Chain.clearLoop, h.popFront_nil]
          exact ⟨rfl, h⟩
  | cons x rest ih =>
      cases fuel with
      | zero => simp at hfuel
      | succ fuel =>
          obtain ⟨hvalue, hrest⟩ := h.popFront_cons
          obtain ⟨hvalues, hnil⟩ := ih hrest (Nat.le_of_succ_le_succ hfuel)
          have hpop : c.popFront = (some x.2, c.popFront.2) := Prod.ext hvalue rfl
          simp only [Chain.clearLoop]
          rw [hpop]
          exact ⟨congrArg (x.2 :: ·) hvalues, hnil⟩

theorem Represents.clear (h : Represents c items) :
    c.clear.1 = items.map Prod.snd ∧ Represents c.clear.2 [] :=
  h.clearLoop (Nat.le_of_eq h.size_eq.symm)

/-! ## Moving and replacing elements -/

theorem moveToBack_of_stale (hget : c.get? i = none) : c.moveToBack i = (false, c) := by
  have hnode : c.nodes.get? i = none := Option.map_eq_none_iff.mp hget
  unfold moveToBack
  split
  · simp [contains, Slab.contains, hnode]
  · simp [unlink?_eq, hnode]

/-- The element keeps its index when it goes to the end of the sequence. -/
theorem Represents.moveToBack {left right : List (Index × α)}
    (h : Represents c (left ++ (i, value) :: right)) :
    (c.moveToBack i).1 = true ∧ Represents (c.moveToBack i).2 (left ++ right ++ [(i, value)]) := by
  have hget : c.get? i = some value := (h.enumerates.mem_iff i value).mp (by simp)
  have hperm : (left ++ (i, value) :: right).Perm ((i, value) :: (left ++ right)) :=
    List.perm_middle
  have hnodup := (h.enumerates.of_perm hperm).nodup
  obtain ⟨hi, hnodup⟩ := List.nodup_cons.mp hnodup
  by_cases htail : c.tail = some i
  · -- only the last item has the index of the tail
    have hright : right = [] := by
      rcases right.eq_nil_or_concat with hnil | ⟨front, ⟨j, other⟩, rfl⟩
      · exact hnil
      · rw [h.linked.tail_eq, List.concat_eq_append, ← List.cons_append, ← List.append_assoc,
          lastIndex_concat, Option.some.injEq] at htail
        subst htail
        exact absurd (by simp) hi
    subst hright
    obtain ⟨node, hnode, -⟩ := Option.map_eq_some_iff.mp hget
    rw [Chain.moveToBack, if_pos htail, List.append_nil]
    exact ⟨by simp [contains, Slab.contains, hnode], h⟩
  · obtain ⟨c', hunlink, hlinked, hrelinked⟩ := h.linked.unlink? h.enumerates.nodup
    have hget' : c'.get? i = some value := by rw [hrelinked.get?_eq, hget]
    obtain ⟨hlinked', hrelinked'⟩ := hlinked.linkBack hnodup hi hget'
    rw [Chain.moveToBack, if_neg htail, hunlink]
    refine ⟨rfl, h.relink (hrelinked.trans hrelinked') hlinked' (hperm.trans ?_)⟩
    exact (List.perm_append_singleton _ _).symm

theorem get?_set (hget : c.get? i = some value) (new : α) :
    (c.set i new).get? = Function.update c.get? i (some new) := by
  obtain ⟨node, hnode, -⟩ := Option.map_eq_some_iff.mp hget
  have hnodes := c.nodes.get?_modify i fun node => { node with value := new }
  rw [hnode] at hnodes
  exact get?_of_nodes c (c.set i new) hnodes

/-- The element that replaces another takes its place in the sequence. -/
theorem Represents.set {left right : List (Index × α)}
    (h : Represents c (left ++ (i, value) :: right)) (new : α) :
    Represents (c.set i new) (left ++ (i, new) :: right) := by
  have hget : c.get? i = some value := (h.enumerates.mem_iff i value).mp (by simp)
  have hperm : (left ++ (i, value) :: right).Perm ((i, value) :: (left ++ right)) :=
    List.perm_middle
  have henumerates := h.enumerates.of_perm hperm
  obtain ⟨hi, -⟩ := List.nodup_cons.mp henumerates.nodup
  obtain ⟨hleft, hnode, hright⟩ := segment_append.mp h.linked.segment
  have hframe : ∀ x ∈ left ++ right, (c.set i new).nodes.get? x.1 = c.nodes.get? x.1 := by
    intro x hx
    rw [Chain.set, Slab.get?_modify, Function.update_of_ne (ne_of_mem hx hi)]
  refine ⟨h.wellFormed.modify i _, ⟨segment_append.mpr ⟨?_, ?_, ?_⟩, ?_, ?_⟩, ?_⟩
  · exact hleft.frame fun x hx => hframe x (List.mem_append_left _ hx)
  · rw [Chain.set, Slab.get?_modify, Function.update_self, hnode]
    rfl
  · exact hright.frame fun x hx => hframe x (List.mem_append_right _ hx)
  · refine h.linked.head_eq.trans ?_
    cases left <;> rfl
  · refine h.linked.tail_eq.trans ?_
    rw [lastIndex_append, lastIndex_append, lastIndex_cons, lastIndex_cons]
  · rw [get?_set hget]
    exact (henumerates.set new).of_perm List.perm_middle.symm

end Chain

end BoundedCache
