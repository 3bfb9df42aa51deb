import BoundedCache.Slab

/-!
# Replacement by use count

The victim is the element used least often, and among equally used ones the one
added first.  Elements live in a slab; `order` lists their indices by rank, that
is by use count and then by the number of the insertion, which never changes
while the element stays.
-/

namespace BoundedCache

/-- The largest use count; counting stops there. -/
def maxFrequency : Nat := UInt64.size - 1

/-- The place of an element among the others: fewer uses first, then earlier
insertion. -/
structure Rank where
  frequency : Nat
  sequence : Nat
  deriving DecidableEq, Repr

/-- Whether rank `a` comes strictly before rank `b`. -/
def Rank.before (a b : Rank) : Bool :=
  a.frequency < b.frequency || (a.frequency == b.frequency && a.sequence < b.sequence)

/-- The rank after one more use. -/
def Rank.bump (r : Rank) : Rank := { r with frequency := min (r.frequency + 1) maxFrequency }

/-- An element with its rank. -/
structure Counted (α : Type) where
  element : α
  rank : Rank

/-- Elements ordered by rank, and the number of insertions so far. -/
structure FrequencyPolicy (α : Type) where
  nodes : Slab (Counted α) := {}
  order : List (Rank × Index) := []
  insertions : Nat := 0

namespace FrequencyPolicy

variable {α : Type}

/-- Put an index at its rank; an index already at that very rank is replaced. -/
def insertRanked (rank : Rank) (i : Index) : List (Rank × Index) → List (Rank × Index)
  | [] => [(rank, i)]
  | (other, j) :: rest =>
      if rank.before other then (rank, i) :: (other, j) :: rest
      else if rank = other then (rank, i) :: rest
      else (other, j) :: insertRanked rank i rest

/-- Drop the index at `rank`. -/
def eraseRanked (rank : Rank) (order : List (Rank × Index)) : List (Rank × Index) :=
  order.filter fun (other, _) => other ≠ rank

/-- The number of elements. -/
def size (p : FrequencyPolicy α) : Nat := p.nodes.size

/-- The use count of the element at `i`. -/
def frequency? (p : FrequencyPolicy α) (i : Index) : Option Nat :=
  (p.nodes.get? i).map (·.rank.frequency)

/-- Take a new element, used once. -/
def add (p : FrequencyPolicy α) (element : α) : Index × FrequencyPolicy α :=
  let rank : Rank := ⟨1, p.insertions + 1⟩
  let (i, nodes) := p.nodes.insert ⟨element, rank⟩
  (i, { nodes := nodes, order := insertRanked rank i p.order, insertions := p.insertions + 1 })

/-- Record a use of the element at `i`. -/
def touch (p : FrequencyPolicy α) (i : Index) : FrequencyPolicy α :=
  match p.nodes.get? i with
  | none => p
  | some node =>
      { p with
        nodes := p.nodes.modify i fun node => { node with rank := node.rank.bump }
        order := insertRanked node.rank.bump i (eraseRanked node.rank p.order) }

/-- Replace the element at `i`, which counts as a use.  The answer is whether `i`
is live. -/
def update (p : FrequencyPolicy α) (i : Index) (element : α) : Bool × FrequencyPolicy α :=
  if p.nodes.contains i then
    let nodes := p.nodes.modify i fun node => { node with element := element }
    (true, { p with nodes := nodes }.touch i)
  else (false, p)

/-- Take out the element at `i`. -/
def remove (p : FrequencyPolicy α) (i : Index) : Option α × FrequencyPolicy α :=
  match p.nodes.remove i with
  | (none, _) => (none, p)
  | (some node, nodes) =>
      (some node.element, { p with nodes := nodes, order := eraseRanked node.rank p.order })

/-- Take out the element of lowest rank. -/
def evict (p : FrequencyPolicy α) : Option α × FrequencyPolicy α :=
  match p.order with
  | [] => (none, p)
  | (_, i) :: rest =>
      let (node, nodes) := p.nodes.remove i
      (node.map (·.element), { p with nodes := nodes, order := rest })

/-- The element at `i`. -/
def peek? (p : FrequencyPolicy α) (i : Index) : Option α := (p.nodes.get? i).map (·.element)

/-- All elements by rank, which is the order in which they would be evicted. -/
def peekAll (p : FrequencyPolicy α) : List α := p.order.filterMap fun (_, i) => p.peek? i

/-- Take out every element, by rank.  The count of insertions goes on. -/
def clear (p : FrequencyPolicy α) : List α × FrequencyPolicy α :=
  let (drained, nodes) := p.nodes.clear
  let sorted := drained.mergeSort fun a b => !b.rank.before a.rank
  (sorted.map (·.element), { p with nodes := nodes, order := [] })

end FrequencyPolicy

end BoundedCache
