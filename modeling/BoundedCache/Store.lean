import BoundedCache.Entry
import BoundedCache.Policy

/-!
# The store

The store holds at most one entry per key, keeps the number of entries and the
sum of their sizes within two limits, and asks its policy for victims when a
write would exceed them.  Every operation reports exactly the entries that it
changed.

An entry and the policy's element for it are tied by the index in its slot.
`volume` is kept along and is meant to be the sum of the sizes; `exactVolume` is
that sum.
-/

namespace BoundedCache

/-- An entry with the index of its key in the policy. -/
structure Slot (K V : Type) where
  entry : Entry K V
  index : Index

/-- The order in which a map gives out what it holds, each time it is asked for all of it.
Nothing is known of these orders but that everything comes once. -/
structure Walk (α : Type) where
  order : Nat → List α → List α
  perm : ∀ time items, (order time items).Perm items

/-- The order of insertion, every time. -/
def Walk.plain {α : Type} : Walk α := ⟨fun _ => id, fun _ _ => .refl _⟩

@[simp] theorem Walk.order_nil {α : Type} (w : Walk α) (time : Nat) : w.order time [] = [] :=
  (w.perm time []).eq_nil

/-- Entries under a policy and two limits. -/
structure Store (K V : Type) where
  slots : List (Slot K V) := []
  policy : Policy K
  maxEntries : Nat := unbounded
  maxVolume : Nat := unbounded
  volume : Nat := 0
  walk : Walk (Slot K V) := .plain
  /-- How often the slots have been gone through. -/
  walks : Nat := 0

/-- What a write changed: the entry replaced, the entry written, the victims. -/
structure Written (K V : Type) where
  old : Option (Entry K V)
  new : Entry K V
  evicted : List (Entry K V)
  deriving DecidableEq, Repr

namespace Store

variable {K V : Type} [DecidableEq K]

/-- The store without entries. -/
def new (policy : Policy K) (maxEntries maxVolume : Nat) (walk : Walk (Slot K V) := .plain) :
    Store K V :=
  { policy := policy, maxEntries := maxEntries, maxVolume := maxVolume, walk := walk }

/-- The number of entries. -/
def size (s : Store K V) : Nat := s.slots.length

/-- Whether there is no entry. -/
def isEmpty (s : Store K V) : Bool := s.slots.isEmpty

/-- The volume as a number of 64 bits: sums beyond that show as the largest one. -/
def shownVolume (s : Store K V) : Nat := min s.volume unbounded

/-- The entries, in no particular order. -/
def entries (s : Store K V) : List (Entry K V) := s.slots.map (·.entry)

/-- The sum of the sizes of the entries. -/
def exactVolume (s : Store K V) : Nat := (s.entries.map (·.size)).foldr (· + ·) 0

/-- The keys, in the order of the policy. -/
def keys (s : Store K V) : List K := s.policy.peekAll

/-- The slot of a key. -/
def slot? (s : Store K V) (key : K) : Option (Slot K V) :=
  s.slots.find? fun slot => slot.entry.key = key

/-- The entry of a key. -/
def get? (s : Store K V) (key : K) : Option (Entry K V) := (s.slot? key).map (·.entry)

/-- Whether a key has an entry. -/
def contains (s : Store K V) (key : K) : Bool := (s.slot? key).isSome

/-- The index of a key in the policy. -/
def index? (s : Store K V) (key : K) : Option Index := (s.slot? key).map (·.index)

/-- The slots without that of `key`. -/
def without (slots : List (Slot K V)) (key : K) : List (Slot K V) :=
  slots.filter fun slot => slot.entry.key ≠ key

/-- The slots with that of the key of `slot` replaced. -/
def replacing (slots : List (Slot K V)) (slot : Slot K V) : List (Slot K V) :=
  slots.map fun other => if other.entry.key = slot.entry.key then slot else other

/-- Record a read of `key` and answer its entry. -/
def touch (s : Store K V) (key : K) (now : Nat) : Option (Entry K V) × Store K V :=
  match s.slot? key with
  | none => (none, s)
  | some slot =>
      let entry := slot.entry.access now
      (some entry,
        { s with
          slots := replacing s.slots { slot with entry := entry }
          policy := s.policy.touch slot.index })

/-- Remove the entry of `key`. -/
def remove (s : Store K V) (key : K) : Option (Entry K V) × Store K V :=
  match s.slot? key with
  | none => (none, s)
  | some slot =>
      (some slot.entry,
        { s with
          slots := without s.slots key
          policy := (s.policy.remove slot.index).2
          volume := s.volume - slot.entry.size })

/-- Remove the entries of several keys, one after the other; keys without an entry
are skipped. -/
def removeKeys (s : Store K V) : List K → List (Entry K V) × Store K V
  | [] => ([], s)
  | key :: keys =>
      let (removed, s) := s.remove key
      let (rest, s) := s.removeKeys keys
      (removed.toList ++ rest, s)

/-- The entries in the order in which the map is gone through. -/
def walked (s : Store K V) : List (Entry K V) := (s.walk.order s.walks s.slots).map (·.entry)

/-- Remove the entries that satisfy `condition`: their keys are collected first, as the map gives
them out, and then removed in that order. -/
def removeIf (s : Store K V) (condition : Entry K V → Bool) : List (Entry K V) × Store K V :=
  removeKeys { s with walks := s.walks + 1 } ((s.walked.filter condition).map (·.key))

/-- Whether the store is beyond the given limits. -/
def exceeds (s : Store K V) (maxEntries maxVolume : Nat) : Bool :=
  decide (maxEntries < s.size) || decide (maxVolume < s.volume)

/-- Whether an entry of this size can be held at all. -/
def admits (s : Store K V) (size : Nat) : Bool :=
  decide (0 < s.maxEntries) && decide (size ≤ s.maxVolume)

/-- Ask the policy for victims until one of them has an entry, at most `fuel`
times, and remove that entry. -/
def evictLoop : Nat → Store K V → Option (Entry K V) × Store K V
  | 0, s => (none, s)
  | fuel + 1, s =>
      match s.policy.evict with
      | (none, policy) => (none, { s with policy := policy })
      | (some key, policy) =>
          match s.slot? key with
          | none => evictLoop fuel { s with policy := policy }
          | some slot =>
              (some slot.entry,
                { s with
                  slots := without s.slots key
                  policy := policy
                  volume := s.volume - slot.entry.size })

/-- Remove the next victim. -/
def evictOne (s : Store K V) : Option (Entry K V) × Store K V :=
  evictLoop (s.policy.size + 1) s

/-- Remove victims while the store is beyond the given limits, at most `fuel` of
them. -/
def trimLoop (maxEntries maxVolume : Nat) : Nat → Store K V → List (Entry K V) × Store K V
  | 0, s => ([], s)
  | fuel + 1, s =>
      if s.exceeds maxEntries maxVolume then
        match s.evictOne with
        | (none, s) => ([], s)
        | (some entry, s) =>
            let (rest, s) := trimLoop maxEntries maxVolume fuel s
            (entry :: rest, s)
      else ([], s)

/-- Remove victims until the store is within the given limits.  Each removes an
entry, so there are no more of them than entries. -/
def trimTo (s : Store K V) (maxEntries maxVolume : Nat) : List (Entry K V) × Store K V :=
  trimLoop maxEntries maxVolume (s.size + 1) s

/-- Change the limits and remove what no longer fits. -/
def setLimits (s : Store K V) (maxEntries maxVolume : Nat) : List (Entry K V) × Store K V :=
  { s with maxEntries := maxEntries, maxVolume := maxVolume }.trimTo maxEntries maxVolume

/-- A write that could never fit: the old entry goes, and the new one is its own
victim. -/
def putOversized (s : Store K V) (key : K) (value : V) (attributes : Attributes)
    (expires : Option Nat) (now : Nat) : Written K V × Store K V :=
  let (old, s) := s.remove key
  let fresh := Entry.new key value attributes expires now
  let new := match old with
    | none => fresh
    | some old => { fresh with created := old.created, version := old.version + 1 }
  (⟨old, new, [new]⟩, s)

/-- A write to a key that has an entry.  A read is recorded with it if
`recordAccess` holds.  If the policy has lost the element it is added again. -/
def putPresent (s : Store K V) (slot : Slot K V) (value : V) (attributes : Attributes)
    (expires : Option Nat) (now : Nat) (recordAccess : Bool) : Entry K V × Store K V :=
  let old := slot.entry
  let updated := old.update value attributes expires now
  let new := if recordAccess then updated.stamp now else updated
  let (kept, policy) := s.policy.update slot.index old.key
  let (index, policy) := if kept then (slot.index, policy) else policy.add old.key
  (new,
    { s with
      slots := replacing s.slots { entry := new, index := index }
      policy := policy
      volume := s.volume - old.size + attributes.size })

/-- A write to a key that has no entry: room is made first. -/
def putAbsent (s : Store K V) (key : K) (value : V) (attributes : Attributes)
    (expires : Option Nat) (now : Nat) : Written K V × Store K V :=
  let (evicted, s) := s.trimTo (s.maxEntries - 1) (s.maxVolume - attributes.size)
  let entry := Entry.new key value attributes expires now
  let (index, policy) := s.policy.add key
  (⟨none, entry, evicted⟩,
    { s with
      slots := s.slots ++ [{ entry := entry, index := index }]
      policy := policy
      volume := s.volume + attributes.size })

/-- Write `value` for `key`, removing victims as needed.  The entry reported as
new is the one written, whether or not it is among the victims. -/
def put (s : Store K V) (key : K) (value : V) (attributes : Attributes) (expires : Option Nat)
    (now : Nat) (recordAccess : Bool) : Written K V × Store K V :=
  if s.admits attributes.size then
    match s.slot? key with
    | some slot =>
        let (new, s) := s.putPresent slot value attributes expires now recordAccess
        let (evicted, s) := s.trimTo s.maxEntries s.maxVolume
        (⟨some slot.entry, new, evicted⟩, s)
    | none =>
        let (written, s) := s.putAbsent key value attributes expires now
        let (evicted, s) := s.trimTo s.maxEntries s.maxVolume
        ({ written with evicted := written.evicted ++ evicted }, s)
  else s.putOversized key value attributes expires now

/-- Write several values, one after the other. -/
def putAll (s : Store K V) (attributes : Attributes) (expires : Option Nat) (now : Nat) :
    List (K × V) → List (Written K V) × Store K V
  | [] => ([], s)
  | (key, value) :: pairs =>
      let (written, s) := s.put key value attributes expires now true
      let (rest, s) := s.putAll attributes expires now pairs
      (written :: rest, s)

/-- Remove every entry, in the order in which the policy gives its elements up.  Entries that
the policy does not name come last, as the map gives them out. -/
def clear (s : Store K V) : List (Entry K V) × Store K V :=
  let (keys, policy) := s.policy.clear
  let (named, slots) := keys.foldl (fun (named, slots) key =>
    match slots.find? fun slot : Slot K V => slot.entry.key = key with
    | none => (named, slots)
    | some slot => (named ++ [slot.entry], without slots key)) ([], s.slots)
  (named ++ (s.walk.order s.walks slots).map (·.entry),
    { s with slots := [], policy := policy, volume := 0, walks := s.walks + 1 })

/-- The summary of a store for debugging. -/
def summary (s : Store K V) : String :=
  "EntryStore \x7b len: " ++ toString s.size ++ ", volume: " ++ toString s.volume ++
    ", max_entries: " ++ toString s.maxEntries ++ ", max_volume: " ++ toString s.maxVolume ++
    " \x7d"

/-- The operations on a store, as data. -/
inductive Action (K V : Type) where
  | put (key : K) (value : V) (attributes : Attributes) (expires : Option Nat) (now : Nat)
      (recordAccess : Bool)
  | touch (key : K) (now : Nat)
  | remove (key : K)
  | removeIf (condition : Entry K V → Bool)
  | clear
  | trimTo (maxEntries maxVolume : Nat)
  | setLimits (maxEntries maxVolume : Nat)

/-- What one operation does. -/
def act (s : Store K V) : Action K V → Store K V
  | .put key value attributes expires now recordAccess =>
      (s.put key value attributes expires now recordAccess).2
  | .touch key now => (s.touch key now).2
  | .remove key => (s.remove key).2
  | .removeIf condition => (s.removeIf condition).2
  | .clear => s.clear.2
  | .trimTo maxEntries maxVolume => (s.trimTo maxEntries maxVolume).2
  | .setLimits maxEntries maxVolume => (s.setLimits maxEntries maxVolume).2

/-- The store after a sequence of operations. -/
def run (s : Store K V) (actions : List (Action K V)) : Store K V := actions.foldl act s

end Store

end BoundedCache
