import BoundedCache.Chain

/-!
# Replacement by order: oldest, newest, least recent, most recent

Four disciplines keep their elements in one chain and differ in two bits only:
whether a use moves the element to the back, and from which end victims are
taken.  Insertion order is kept by `fifo` and `lifo`, recency of use by `lru`
and `mru`.
-/

namespace BoundedCache

/-- Which order is kept, and which end of it is given up first. -/
inductive Discipline where
  /-- Earliest added first. -/
  | fifo
  /-- Latest added first. -/
  | lifo
  /-- Least recently used first. -/
  | lru
  /-- Most recently used first. -/
  | mru
  deriving DecidableEq, Repr

/-- Whether a use moves the element to the back of the chain. -/
def Discipline.followsUse : Discipline → Bool
  | .fifo | .lifo => false
  | .lru | .mru => true

/-- Whether victims are taken from the back of the chain. -/
def Discipline.takesNewest : Discipline → Bool
  | .fifo | .lru => false
  | .lifo | .mru => true

/-- Elements in a chain, with the discipline that orders them. -/
structure OrderedPolicy (α : Type) where
  discipline : Discipline
  chain : Chain α := {}

namespace OrderedPolicy

variable {α : Type}

/-- The number of elements. -/
def size (p : OrderedPolicy α) : Nat := p.chain.size

/-- Take a new element, at the back. -/
def add (p : OrderedPolicy α) (element : α) : Index × OrderedPolicy α :=
  let (i, chain) := p.chain.pushBack element
  (i, { p with chain := chain })

/-- Record a use of the element at `i`. -/
def touch (p : OrderedPolicy α) (i : Index) : OrderedPolicy α :=
  if p.discipline.followsUse then { p with chain := (p.chain.moveToBack i).2 } else p

/-- Replace the element at `i`, which counts as a use.  The answer is whether `i`
is live. -/
def update (p : OrderedPolicy α) (i : Index) (element : α) : Bool × OrderedPolicy α :=
  if p.chain.contains i then
    (true, { p with chain := p.chain.set i element }.touch i)
  else (false, p)

/-- Take out the element at `i`. -/
def remove (p : OrderedPolicy α) (i : Index) : Option α × OrderedPolicy α :=
  let (element, chain) := p.chain.remove i
  (element, { p with chain := chain })

/-- Take out the victim. -/
def evict (p : OrderedPolicy α) : Option α × OrderedPolicy α :=
  let (element, chain) := if p.discipline.takesNewest then p.chain.popBack else p.chain.popFront
  (element, { p with chain := chain })

/-- The element at `i`. -/
def peek? (p : OrderedPolicy α) (i : Index) : Option α := p.chain.get? i

/-- All elements, in the order in which they would be evicted. -/
def peekAll (p : OrderedPolicy α) : List α :=
  (if p.discipline.takesNewest then p.chain.toListRev else p.chain.toList).map (·.2)

/-- Take out every element, from the front of the chain to its back. -/
def clear (p : OrderedPolicy α) : List α × OrderedPolicy α :=
  let (elements, chain) := p.chain.clear
  (elements, { p with chain := chain })

end OrderedPolicy

end BoundedCache
