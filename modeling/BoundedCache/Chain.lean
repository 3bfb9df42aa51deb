import BoundedCache.Slab

/-!
# Chains: a doubly linked sequence in a slab

A chain is a sequence whose nodes live in a slab and are linked by index in both
directions.  An index stays valid while its node moves within the sequence, so
an element can be taken out of the middle, or moved to the back, in one step.

`toList` reads the sequence along the forward links and `toListRev` along the
backward ones.  Operations on a stale index change nothing.
-/

namespace BoundedCache

/-- An element with its neighbours. -/
structure Node (α : Type) where
  value : α
  prev : Option Index := none
  next : Option Index := none

/-- A sequence of nodes with its two ends. -/
structure Chain (α : Type) where
  nodes : Slab (Node α) := {}
  head : Option Index := none
  tail : Option Index := none

namespace Chain

variable {α : Type}

/-- The sequence without any node. -/
def empty : Chain α := {}

instance : Inhabited (Chain α) := ⟨empty⟩

/-- The number of nodes. -/
def size (c : Chain α) : Nat := c.nodes.size

/-- Whether there is no node. -/
def isEmpty (c : Chain α) : Bool := c.nodes.isEmpty

/-- Whether `i` addresses a node. -/
def contains (c : Chain α) (i : Index) : Bool := c.nodes.contains i

/-- The element at `i`, unless `i` is stale. -/
def get? (c : Chain α) (i : Index) : Option α := (c.nodes.get? i).map (·.value)

/-- Replace the element at `i`, whose place in the sequence stays. -/
def set (c : Chain α) (i : Index) (value : α) : Chain α :=
  { c with nodes := c.nodes.modify i fun node => { node with value := value } }

/-- The live index that `i?` names, if there is one. -/
def liveEnd (c : Chain α) (i? : Option Index) : Option Index :=
  i?.filter c.contains

/-- Give node `i` the last place. -/
def linkBack (c : Chain α) (i : Index) : Chain α :=
  let prev := c.tail
  let c := { c with
    nodes := c.nodes.modify i fun node => { node with prev := prev, next := none } }
  let c := match c.liveEnd prev with
    | some p => { c with nodes := c.nodes.modify p fun node => { node with next := some i } }
    | none => { c with head := some i }
  { c with tail := some i }

/-- Give node `i` the first place. -/
def linkFront (c : Chain α) (i : Index) : Chain α :=
  let next := c.head
  let c := { c with
    nodes := c.nodes.modify i fun node => { node with prev := none, next := next } }
  let c := match c.liveEnd next with
    | some n => { c with nodes := c.nodes.modify n fun node => { node with prev := some i } }
    | none => { c with tail := some i }
  { c with head := some i }

/-- Take node `i` out of the sequence, joining its neighbours; the node itself
stays in the slab.  `none` if `i` is stale. -/
def unlink? (c : Chain α) (i : Index) : Option (Chain α) :=
  match c.nodes.get? i with
  | none => none
  | some node =>
      let c := { c with
        nodes := c.nodes.modify i fun node => { node with prev := none, next := none } }
      let c := match c.liveEnd node.prev with
        | some p =>
            { c with nodes := c.nodes.modify p fun before => { before with next := node.next } }
        | none => { c with head := node.next }
      let c := match c.liveEnd node.next with
        | some n =>
            { c with nodes := c.nodes.modify n fun after => { after with prev := node.prev } }
        | none => { c with tail := node.prev }
      some c

/-- Append `value`. -/
def pushBack (c : Chain α) (value : α) : Index × Chain α :=
  let (i, nodes) := c.nodes.insert { value := value }
  (i, { c with nodes := nodes }.linkBack i)

/-- Prepend `value`. -/
def pushFront (c : Chain α) (value : α) : Index × Chain α :=
  let (i, nodes) := c.nodes.insert { value := value }
  (i, { c with nodes := nodes }.linkFront i)

/-- Take out the node at `i`. -/
def remove (c : Chain α) (i : Index) : Option α × Chain α :=
  match c.unlink? i with
  | none => (none, c)
  | some c =>
      let (node, nodes) := c.nodes.remove i
      (node.map (·.value), { c with nodes := nodes })

/-- Take out the first node. -/
def popFront (c : Chain α) : Option α × Chain α :=
  match c.head with
  | none => (none, c)
  | some i => c.remove i

/-- Take out the last node. -/
def popBack (c : Chain α) : Option α × Chain α :=
  match c.tail with
  | none => (none, c)
  | some i => c.remove i

/-- Move the node at `i` to the back.  The answer is whether `i` is live. -/
def moveToBack (c : Chain α) (i : Index) : Bool × Chain α :=
  if c.tail = some i then (c.contains i, c)
  else
    match c.unlink? i with
    | none => (false, c)
    | some c => (true, c.linkBack i)

/-- Nodes along the forward links from `start`, at most `fuel` of them. -/
def walkForward (c : Chain α) : Nat → Option Index → List (Index × α)
  | 0, _ => []
  | _, none => []
  | fuel + 1, some i =>
      match c.nodes.get? i with
      | none => []
      | some node => (i, node.value) :: c.walkForward fuel node.next

/-- Nodes along the backward links from `start`, at most `fuel` of them. -/
def walkBackward (c : Chain α) : Nat → Option Index → List (Index × α)
  | 0, _ => []
  | _, none => []
  | fuel + 1, some i =>
      match c.nodes.get? i with
      | none => []
      | some node => (i, node.value) :: c.walkBackward fuel node.prev

/-- The sequence from front to back, with indices. -/
def toList (c : Chain α) : List (Index × α) := c.walkForward c.size c.head

/-- The sequence from back to front, with indices. -/
def toListRev (c : Chain α) : List (Index × α) := c.walkBackward c.size c.tail

/-- Take out nodes from the front until none is left, at most `fuel` times. -/
def clearLoop : Nat → Chain α → List α × Chain α
  | 0, c => ([], c)
  | fuel + 1, c =>
      match c.popFront with
      | (none, c) => ([], c)
      | (some value, c) =>
          let (values, c) := clearLoop fuel c
          (value :: values, c)

/-- Take out every node, from front to back. -/
def clear (c : Chain α) : List α × Chain α := clearLoop c.size c

/-- The operations on a chain, as data. -/
inductive Action (α : Type) where
  | pushBack (value : α)
  | pushFront (value : α)
  | popFront
  | popBack
  | remove (index : Index)
  | moveToBack (index : Index)
  | set (index : Index) (value : α)
  | clear

/-- What one operation does. -/
def act (c : Chain α) : Action α → Chain α
  | .pushBack value => (c.pushBack value).2
  | .pushFront value => (c.pushFront value).2
  | .popFront => c.popFront.2
  | .popBack => c.popBack.2
  | .remove index => (c.remove index).2
  | .moveToBack index => (c.moveToBack index).2
  | .set index value => c.set index value
  | .clear => c.clear.2

/-- The chain after a sequence of operations. -/
def run (c : Chain α) (actions : List (Action α)) : Chain α := actions.foldl act c

end Chain

end BoundedCache
