import BoundedCache.Slab

/-!
# Replacement by second chance

Elements stand in a ring of slots, each with a reference bit that a use sets.
To find a victim a hand goes round the ring: a referenced element loses its bit
and is passed over, the first unreferenced one is taken.  After one full round
every bit is clear, so the hand stops within two rounds; `sweep` is given that
many steps.
-/

namespace BoundedCache

/-- An element with its reference bit. -/
structure Marked (α : Type) where
  element : α
  referenced : Bool := false

/-- The ring of slots and the slot at which the hand stands. -/
structure ClockPolicy (α : Type) where
  nodes : Slab (Marked α) := {}
  hand : Nat := 0

namespace ClockPolicy

variable {α : Type}

/-- The number of elements. -/
def size (p : ClockPolicy α) : Nat := p.nodes.size

/-- Move the hand to the next slot of the ring. -/
def advance (p : ClockPolicy α) : ClockPolicy α :=
  { p with hand := if p.hand + 1 < p.nodes.slots then p.hand + 1 else 0 }

/-- Take a new element, unreferenced. -/
def add (p : ClockPolicy α) (element : α) : Index × ClockPolicy α :=
  let (i, nodes) := p.nodes.insert { element := element }
  (i, { p with nodes := nodes })

/-- Record a use of the element at `i`. -/
def touch (p : ClockPolicy α) (i : Index) : ClockPolicy α :=
  { p with nodes := p.nodes.modify i fun node => { node with referenced := true } }

/-- Replace the element at `i`, which counts as a use.  The answer is whether `i`
is live. -/
def update (p : ClockPolicy α) (i : Index) (element : α) : Bool × ClockPolicy α :=
  (p.nodes.contains i,
    { p with nodes := p.nodes.modify i fun _ => { element := element, referenced := true } })

/-- Take out the element at `i`. -/
def remove (p : ClockPolicy α) (i : Index) : Option α × ClockPolicy α :=
  let (node, nodes) := p.nodes.remove i
  (node.map (·.element), { p with nodes := nodes })

/-- Let the hand inspect slots until it takes a victim, at most `fuel` of them. -/
def sweep : Nat → ClockPolicy α → Option α × ClockPolicy α
  | 0, p => (none, p)
  | fuel + 1, p =>
      match p.nodes.indexAt? p.hand with
      | none => sweep fuel p.advance
      | some i =>
          match p.nodes.get? i with
          | none => (none, p)
          | some node =>
              if node.referenced then
                let nodes := p.nodes.modify i fun node => { node with referenced := false }
                sweep fuel { p with nodes := nodes }.advance
              else p.advance.remove i

/-- Take out the victim: two rounds of the hand always find one. -/
def evict (p : ClockPolicy α) : Option α × ClockPolicy α :=
  if p.nodes.isEmpty then (none, p)
  else
    let p := if p.hand < p.nodes.slots then p else { p with hand := 0 }
    sweep (2 * p.nodes.slots) p

/-- The element at `i`. -/
def peek? (p : ClockPolicy α) (i : Index) : Option α := (p.nodes.get? i).map (·.element)

/-- All elements in the order in which the hand meets them. -/
def peekAll (p : ClockPolicy α) : List α :=
  (List.range p.nodes.slots).filterMap fun offset =>
    match p.nodes.indexAt? ((p.hand + offset) % p.nodes.slots) with
    | none => none
    | some i => p.peek? i

/-- Take out every element in slot order and put the hand back to the start. -/
def clear (p : ClockPolicy α) : List α × ClockPolicy α :=
  let (drained, nodes) := p.nodes.clear
  (drained.map (·.element), { nodes := nodes, hand := 0 })

end ClockPolicy

end BoundedCache
