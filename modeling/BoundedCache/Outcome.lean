import BoundedCache.Store

/-!
# Operations, outcomes and events

Every change of a cache is bracketed by an operation and reported as an outcome,
which says exactly what entered and what left.  `Outcome.events` unfolds an
outcome into the sequence of single events that a listener is told: one `enter`
for each entry that came in, one `leave` with its reason for each that went.

In a write the replaced entry leaves first, then the victims that made room, then
the new entry comes in.  A new entry that is its own victim leaves after that.
-/

namespace BoundedCache

/-- What a cache is asked to do, as far as hooks are told. -/
inductive Operation where
  | clear
  | put
  | putAll
  | remove
  | removeAll
  | replace
  | trim
  | purge
  | expire
  | get
  deriving DecidableEq, Repr, Inhabited

/-- The name of an operation. -/
def Operation.name : Operation → String
  | .clear => "clear"
  | .put => "put"
  | .putAll => "put_all"
  | .remove => "remove"
  | .removeAll => "remove_all"
  | .replace => "replace"
  | .trim => "trim"
  | .purge => "purge"
  | .expire => "expire"
  | .get => "get"

/-- Where a written value comes from. -/
inductive Origin where
  | user
  | loader
  deriving DecidableEq, Repr, Inhabited

/-- The name of an origin. -/
def Origin.name : Origin → String
  | .user => "User"
  | .loader => "Loader"

/-- Why an entry left. -/
inductive Reason where
  | evict
  | expire
  | replace
  | remove
  | clear
  deriving DecidableEq, Repr, Inhabited

/-- The name of a reason. -/
def Reason.name : Reason → String
  | .evict => "Evict"
  | .expire => "Expire"
  | .replace => "Replace"
  | .remove => "Remove"
  | .clear => "Clear"

/-- An operation and the time at which it began. -/
structure Token where
  operation : Operation
  timestamp : Nat
  deriving DecidableEq, Repr, Inhabited

/-- What an operation changed, or what a read found. -/
inductive Outcome (K V : Type) where
  | clear (removed : List (Entry K V))
  | put (origin : Origin) (written : Written K V)
  | putAll (origin : Origin) (puts : List (Written K V))
  | remove (key : K) (removed : Option (Entry K V))
  | removeAll (removed : List (Entry K V))
  | replace (old new : Entry K V) (evicted : List (Entry K V))
  | trim (evicted : List (Entry K V))
  | purge (expired evicted : List (Entry K V))
  | expire (expired : List (Entry K V))
  | getHit (entry : Entry K V)
  | getMiss (key : K) (expired : Bool)
  deriving DecidableEq

/-- One entry coming in or going out. -/
inductive Event (K V : Type) where
  | enter (key : K) (value : V) (origin : Origin)
  | leave (reason : Reason) (key : K) (value : V)
  deriving DecidableEq, Repr

namespace Outcome

variable {K V : Type} [DecidableEq K]

/-- The events of entries that left for one reason. -/
def leaving (reason : Reason) (entries : List (Entry K V)) : List (Event K V) :=
  entries.map fun e => .leave reason e.key e.value

/-- The events of one write. -/
def writing (origin : Origin) (old : Option (Entry K V)) (new : Entry K V)
    (evicted : List (Entry K V)) : List (Event K V) :=
  leaving .replace old.toList ++
    leaving .evict (evicted.filter fun e => e.key ≠ new.key) ++
    [.enter new.key new.value origin] ++
    leaving .evict (evicted.filter fun e => e.key = new.key)

/-- The events of an outcome, in order. -/
def events : Outcome K V → List (Event K V)
  | .clear removed => leaving .clear removed
  | .put origin w => writing origin w.old w.new w.evicted
  | .putAll origin puts => puts.flatMap fun w => writing origin w.old w.new w.evicted
  | .remove _ removed => leaving .remove removed.toList
  | .removeAll removed => leaving .remove removed
  | .replace old new evicted => writing .user (some old) new evicted
  | .trim evicted => leaving .evict evicted
  | .purge expired evicted => leaving .expire expired ++ leaving .evict evicted
  | .expire expired => leaving .expire expired
  | .getHit _ => []
  | .getMiss _ _ => []

end Outcome

end BoundedCache
