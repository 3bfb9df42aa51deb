import BoundedCache.Expiration
import BoundedCache.Outcome

/-!
# Operations on the data

An operation on the data is a `Change`: it names the operation that hooks are told
of, and says what happens to the store at one moment.  Nothing else of a cache
enters, so what an operation means can be read off here; that hooks are called, and
when, is the same for all of them.

Told by what it is asked for, an operation is an `Errand`: under a rule of expiration it
is one of the changes.  Those that users may ask for are what hooks may ask for as well.

An entry that is stale at that moment counts as absent.  Reads and conditional
writes remove the one they find; it is then reported as expired, before anything
else.
-/

namespace BoundedCache

/-- What a change does: its answer, the outcomes it reports, in order, and the store
it leaves.  The gauges are set anew unless there is nothing new to show. -/
structure Transaction (K V α : Type) where
  answer : α
  outcomes : List (Outcome K V)
  store : Store K V
  gauged : Bool := true

/-- An operation on the data. -/
structure Change (K V α : Type) where
  operation : Operation
  apply : Store K V → (now : Nat) → Transaction K V α

variable {K V : Type} [DecidableEq K]

/-- The entry of a key that is not stale. -/
def Store.live? (s : Store K V) (x : Expiration K V) (key : K) (now : Nat) :
    Option (Entry K V) :=
  (s.get? key).filter fun e => !x.isExpired e now

namespace Change

/-- Read `key`, counting a hit or a miss. -/
def lookup (x : Expiration K V) (key : K) : Change K V (Option (Entry K V)) where
  operation := .get
  apply s now :=
    match s.get? key with
    | none => { answer := none, outcomes := [.getMiss key false], store := s, gauged := false }
    | some entry =>
        if x.isExpired entry now then
          { answer := none
            outcomes := [.expire [entry], .getMiss key true]
            store := (s.remove key).2 }
        else
          let entry := entry.access now
          { answer := some entry
            outcomes := [.getHit entry]
            store := (s.touch key now).2
            gauged := false }

/-- Write a value.  Only a write by the user counts as an access. -/
def write (x : Expiration K V) (key : K) (value : V) (attributes : Attributes)
    (origin : Origin) : Change K V (Written K V) where
  operation := .put
  apply s now :=
    let (written, s) := s.put key value attributes (x.timeOf now attributes.timeout) now
      (origin = .user)
    { answer := written, outcomes := [.put origin written], store := s }

/-- Write several values, all with the deadline of this moment. -/
def writeAll (x : Expiration K V) (pairs : List (K × V)) : Change K V Unit where
  operation := .putAll
  apply s now :=
    let (puts, s) := s.putAll {} (x.timeOf now none) now pairs
    { answer := (), outcomes := [.putAll .user puts], store := s }

/-- Write a value unless the key has one; the answer is the entry in the way. -/
def putIfAbsent (x : Expiration K V) (key : K) (value : V) :
    Change K V (Option (Entry K V)) where
  operation := .put
  apply s now :=
    let insert (s : Store K V) (expired : List (Outcome K V)) :
        Transaction K V (Option (Entry K V)) :=
      let (written, s) := s.put key value {} (x.timeOf now none) now true
      { answer := none, outcomes := expired ++ [.put .user written], store := s }
    match s.get? key with
    | none => insert s []
    | some entry =>
        if x.isExpired entry now then insert (s.remove key).2 [.expire [entry]]
        else { answer := some entry, outcomes := [], store := s, gauged := false }

/-- Write a value if the key has one; the answer is the entry replaced. -/
def replace (x : Expiration K V) (key : K) (value : V) : Change K V (Option (Entry K V)) where
  operation := .replace
  apply s now :=
    match s.get? key with
    | none => { answer := none, outcomes := [], store := s }
    | some entry =>
        if x.isExpired entry now then
          { answer := none, outcomes := [.expire [entry]], store := (s.remove key).2 }
        else
          let (written, s) := s.put key value {} (x.timeOf now none) now true
          { answer := written.old
            outcomes := written.old.toList.map fun old => .replace old written.new written.evicted
            store := s }

/-- Remove the entry of a key, stale or not. -/
def remove (key : K) : Change K V (Option (Entry K V)) where
  operation := .remove
  apply s _ :=
    let (removed, s) := s.remove key
    { answer := removed, outcomes := [.remove key removed], store := s }

/-- Remove the entries of several keys. -/
def removeAll (keys : List K) : Change K V (List (Entry K V)) where
  operation := .removeAll
  apply s _ :=
    let (removed, s) := s.removeKeys keys
    { answer := removed, outcomes := [.removeAll removed], store := s }

/-- Remove everything. -/
def clear : Change K V Unit where
  operation := .clear
  apply s _ :=
    let (removed, s) := s.clear
    { answer := (), outcomes := [.clear removed], store := s }

/-- Remove the stale entries and count them. -/
def expire (x : Expiration K V) : Change K V Nat where
  operation := .expire
  apply s now :=
    let (expired, s) := s.removeIf fun e => x.isExpired e now
    { answer := expired.length, outcomes := [.expire expired], store := s }

/-- Remove victims until there are at most `maxEntries` entries, and count them. -/
def trim (maxEntries : Nat) : Change K V Nat where
  operation := .trim
  apply s _ :=
    let (evicted, s) := s.trimTo maxEntries unbounded
    { answer := evicted.length, outcomes := [.trim evicted], store := s }

/-- Remove the stale entries, then victims until the limits hold, and count both. -/
def purge (x : Expiration K V) : Change K V Nat where
  operation := .purge
  apply s now :=
    let (expired, s) := s.removeIf fun e => x.isExpired e now
    let (evicted, s) := s.trimTo s.maxEntries s.maxVolume
    { answer := expired.length + evicted.length
      outcomes := [.purge expired evicted]
      store := s }

/-- Set the limits. -/
def resize (maxEntries maxVolume : Nat) : Change K V Unit where
  operation := .trim
  apply s _ :=
    let (evicted, s) := s.setLimits maxEntries maxVolume
    { answer := (), outcomes := [.trim evicted], store := s }

end Change

/-! ## Errands -/

/-- The operations on the data, by what they are asked for. -/
inductive Errand (K V : Type) where
  | lookup (key : K)
  | write (key : K) (value : V) (attributes : Attributes) (origin : Origin)
  | writeAll (pairs : List (K × V))
  | putIfAbsent (key : K) (value : V)
  | replace (key : K) (value : V)
  | remove (key : K)
  | removeAll (keys : List K)
  | clear
  | expire
  | trim (maxEntries : Nat)
  | purge
  | resize (maxEntries maxVolume : Nat)

namespace Errand

variable {K V : Type}

/-- What an errand answers. -/
def Answer : Errand K V → Type
  | lookup _ | putIfAbsent .. | replace .. | remove _ => Option (Entry K V)
  | write .. => Written K V
  | writeAll _ | clear | resize .. => Unit
  | removeAll _ => List (Entry K V)
  | expire | trim _ | purge => Nat

/-- The errand as a change, under a rule of expiration. -/
def change [DecidableEq K] (x : Expiration K V) :
    (errand : Errand K V) → Change K V errand.Answer
  | lookup key => Change.lookup x key
  | write key value attributes origin => Change.write x key value attributes origin
  | writeAll pairs => Change.writeAll x pairs
  | putIfAbsent key value => Change.putIfAbsent x key value
  | replace key value => Change.replace x key value
  | remove key => Change.remove key
  | removeAll keys => Change.removeAll keys
  | clear => Change.clear
  | expire => Change.expire x
  | trim maxEntries => Change.trim maxEntries
  | purge => Change.purge x
  | resize maxEntries maxVolume => Change.resize maxEntries maxVolume

/-- Whether the errand is strict: an error if the cache does not run, not just nothing. -/
def strict : Errand K V → Bool
  | clear | expire | trim _ | purge | resize .. => false
  | _ => true

/-- Users write in their own name only. -/
def ByUser : Errand K V → Prop
  | write _ _ _ origin => origin = .user
  | _ => True

end Errand

end BoundedCache
