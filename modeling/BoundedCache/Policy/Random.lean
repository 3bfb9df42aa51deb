import BoundedCache.Slab
import BoundedCache.Policy.Generator

/-!
# Replacement by random draw

The victim is drawn.  So that every live element can be drawn with one index, a
dense array lists the indices of all of them, and each element knows its
position there.  Taking an element out moves the last one into its position.

`evictAt` takes the drawn position as an argument; `evict` draws it.
-/

namespace BoundedCache

/-- An element with its position in the dense array. -/
structure Placed (α : Type) where
  element : α
  position : Nat

/-- Elements, the dense array of their indices, and the generator of draws. -/
structure RandomPolicy (α : Type) where
  nodes : Slab (Placed α) := {}
  dense : Array Index := #[]
  generator : Generator

namespace RandomPolicy

variable {α : Type}

/-- The array without position `position`, which the last element takes over. -/
def swapErase (dense : Array Index) (position : Nat) : Array Index :=
  match dense.back? with
  | none => dense
  | some last =>
      if position < dense.size then (dense.setIfInBounds position last).pop else dense

/-- The number of elements. -/
def size (p : RandomPolicy α) : Nat := p.dense.size

/-- Take a new element, at the end of the dense array. -/
def add (p : RandomPolicy α) (element : α) : Index × RandomPolicy α :=
  let (i, nodes) := p.nodes.insert ⟨element, p.dense.size⟩
  (i, { p with nodes := nodes, dense := p.dense.push i })

/-- Replace the element at `i`.  The answer is whether `i` is live. -/
def update (p : RandomPolicy α) (i : Index) (element : α) : Bool × RandomPolicy α :=
  (p.nodes.contains i,
    { p with nodes := p.nodes.modify i fun node => { node with element := element } })

/-- Take out the element at `i`; the last of the dense array moves to its
position. -/
def remove (p : RandomPolicy α) (i : Index) : Option α × RandomPolicy α :=
  match p.nodes.remove i with
  | (none, _) => (none, p)
  | (some node, nodes) =>
      let dense := swapErase p.dense node.position
      let nodes := match dense[node.position]? with
        | none => nodes
        | some moved => nodes.modify moved fun other => { other with position := node.position }
      (some node.element, { p with nodes := nodes, dense := dense })

/-- Take out the element at `position` of the dense array. -/
def evictAt (p : RandomPolicy α) (position : Nat) : Option α × RandomPolicy α :=
  match p.dense[position]? with
  | none => (none, p)
  | some i => p.remove i

/-- Take out a drawn element. -/
def evict (p : RandomPolicy α) : Option α × RandomPolicy α :=
  if p.dense.isEmpty then (none, p)
  else
    let (position, generator) := p.generator.below p.dense.size
    { p with generator := generator }.evictAt position

/-- The element at `i`. -/
def peek? (p : RandomPolicy α) (i : Index) : Option α := (p.nodes.get? i).map (·.element)

/-- All elements, in the order of the dense array. -/
def peekAll (p : RandomPolicy α) : List α := p.dense.toList.filterMap p.peek?

/-- Take out every element in slot order.  The generator goes on. -/
def clear (p : RandomPolicy α) : List α × RandomPolicy α :=
  let (drained, nodes) := p.nodes.clear
  (drained.map (·.element), { p with nodes := nodes, dense := #[] })

end RandomPolicy

end BoundedCache
