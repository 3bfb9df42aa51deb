/-!
# Slabs: slots addressed by generation

A slab keeps elements in numbered slots and hands out an `Index` for each.  A
slot that has been vacated is used again, last vacated first, and its generation
goes up by one, so an index issued earlier no longer addresses anything.

The vacant slots form a chain of their own, threaded through the vacant cells:
`free` names its first slot and every vacant cell the next one.  The two views
that the theory works with are `toList`, the live elements in slot order, and
`freeSlots`, the chain of vacant slots.
-/

namespace BoundedCache

/-- The address of an element: its slot, and the generation of that slot when
the element was put there. -/
structure Index where
  slot : Nat
  generation : UInt32
  deriving DecidableEq, Repr, Inhabited

/-- Indices are ordered by slot, then by generation. -/
def Index.compare (i j : Index) : Ordering :=
  (Ord.compare i.slot j.slot).then (Ord.compare i.generation j.generation)

/-- One slot: vacant, with the next vacant slot and the generation that the next
element will get, or occupied. -/
inductive Cell (α : Type) where
  | vacant (next : Option Nat) (generation : UInt32)
  | occupied (generation : UInt32) (value : α)
  deriving Repr

/-- Elements in slots, with the count of live ones and the first vacant slot. -/
structure Slab (α : Type) where
  cells : Array (Cell α) := #[]
  free : Option Nat := none
  size : Nat := 0

namespace Slab

variable {α : Type}

/-- The slab without any slot. -/
def empty : Slab α := {}

instance : Inhabited (Slab α) := ⟨empty⟩

/-- The number of slots, live or vacant. -/
def slots (s : Slab α) : Nat := s.cells.size

/-- Whether no element is live. -/
def isEmpty (s : Slab α) : Bool := s.size == 0

/-- Put `value` into the first vacant slot, or into a new one if none is vacant. -/
def insert (s : Slab α) (value : α) : Index × Slab α :=
  match s.free with
  | none =>
      (⟨s.cells.size, 0⟩,
        { s with cells := s.cells.push (.occupied 0 value), size := s.size + 1 })
  | some slot =>
      match s.cells[slot]? with
      | some (.vacant next generation) =>
          (⟨slot, generation⟩,
            { cells := s.cells.setIfInBounds slot (.occupied generation value)
              free := next
              size := s.size + 1 })
      | _ => (⟨slot, 0⟩, s)

/-- The element at `i`, unless `i` is stale. -/
def get? (s : Slab α) (i : Index) : Option α :=
  match s.cells[i.slot]? with
  | some (.occupied generation value) => if generation = i.generation then some value else none
  | _ => none

/-- Whether `i` addresses a live element. -/
def contains (s : Slab α) (i : Index) : Bool := (s.get? i).isSome

/-- Take the element at `i` out.  Its slot becomes the first vacant one, at the
next generation. -/
def remove (s : Slab α) (i : Index) : Option α × Slab α :=
  match s.get? i with
  | none => (none, s)
  | some value =>
      (some value,
        { cells := s.cells.setIfInBounds i.slot (.vacant s.free (i.generation + 1))
          free := some i.slot
          size := s.size - 1 })

/-- Change the element at `i` in place.  Nothing happens if `i` is stale. -/
def modify (s : Slab α) (i : Index) (change : α → α) : Slab α :=
  match s.get? i with
  | none => s
  | some value =>
      { s with cells := s.cells.setIfInBounds i.slot (.occupied i.generation (change value)) }

/-- The live index of a slot, if the slot is occupied. -/
def indexAt? (s : Slab α) (slot : Nat) : Option Index :=
  match s.cells[slot]? with
  | some (.occupied generation _) => some ⟨slot, generation⟩
  | _ => none

/-- The live elements with their indices, in slot order. -/
def toList (s : Slab α) : List (Index × α) :=
  (List.range s.slots).filterMap fun slot =>
    match s.cells[slot]? with
    | some (Cell.occupied generation value) => some (⟨slot, generation⟩, value)
    | _ => none

/-- Remove every live element, slot by slot.  The last slot emptied is the first
to be used again. -/
def clear (s : Slab α) : List α × Slab α :=
  (List.range s.slots).foldl (fun (drained, s) slot =>
    match s.indexAt? slot with
    | none => (drained, s)
    | some i =>
        match s.remove i with
        | (some value, s) => (drained ++ [value], s)
        | (none, s) => (drained, s)) ([], s)

/-- The chain of vacant slots from `start`, at most `fuel` steps of it. -/
def freeSlotsFrom (s : Slab α) : Nat → Option Nat → List Nat
  | 0, _ => []
  | _, none => []
  | fuel + 1, some slot =>
      match s.cells[slot]? with
      | some (.vacant next _) => slot :: s.freeSlotsFrom fuel next
      | _ => [slot]

/-- The vacant slots in the order in which they will be used again. -/
def freeSlots (s : Slab α) : List Nat := s.freeSlotsFrom s.slots s.free

/-- The summary of a slab for debugging: slots, live elements, first vacant slot. -/
def summary (s : Slab α) : String :=
  let free := match s.free with
    | none => "None"
    | some slot => "Some(" ++ toString slot ++ ")"
  "Slab \x7b slots: " ++ toString s.slots ++ ", len: " ++ toString s.size ++ ", free: " ++ free ++
    " \x7d"

/-- The operations on a slab, as data. -/
inductive Action (α : Type) where
  | insert (value : α)
  | remove (index : Index)
  | set (index : Index) (value : α)
  | clear

/-- What one operation does. -/
def act (s : Slab α) : Action α → Slab α
  | .insert value => (s.insert value).2
  | .remove index => (s.remove index).2
  | .set index value => s.modify index fun _ => value
  | .clear => s.clear.2

/-- The slab after a sequence of operations. -/
def run (s : Slab α) (actions : List (Action α)) : Slab α := actions.foldl act s

end Slab

end BoundedCache
