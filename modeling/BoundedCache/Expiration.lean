import BoundedCache.Entry

/-!
# Expiration

An expiration rule does two things: it stamps a deadline on a write, and it says
whether an entry is stale at a time.  The usual rule takes the timeout of the
write, or else a default one.  A predicate may call more entries stale; a rule of
one's own may stamp any deadline and call any entries stale.
-/

namespace BoundedCache

/-- How entries expire. -/
inductive Expiration (K V : Type) where
  /-- By the timeout of the write, or else the default one. -/
  | timeout (default : Option Duration)
  /-- The same, or as soon as `stale` holds of the entry and the time. -/
  | filtered (stale : Entry K V → Nat → Bool) (default : Option Duration)
  /-- By a deadline computed from the time of the write and its timeout, and as soon as
  `stale` holds of the entry and the time, whatever its deadline. -/
  | custom (time : Nat → Option Duration → Option Nat) (stale : Entry K V → Nat → Bool)

namespace Expiration

variable {K V : Type}

/-- The deadline of a write at `now` with the given timeout. -/
def timeOf (x : Expiration K V) (now : Nat) (timeout : Option Duration) : Option Nat :=
  match x with
  | .timeout default | .filtered _ default => (timeout.or default).map (deadline now)
  | .custom time _ => time now timeout

/-- Whether the deadline of an entry has been reached. -/
def pastDeadline (e : Entry K V) (now : Nat) : Bool :=
  match e.expires with
  | none => false
  | some time => decide (time ≤ now)

/-- Whether an entry is stale. -/
def isExpired (x : Expiration K V) (e : Entry K V) (now : Nat) : Bool :=
  match x with
  | .timeout _ => pastDeadline e now
  | .filtered stale _ => pastDeadline e now || stale e now
  | .custom _ stale => stale e now

/-- The time at which an entry is known to expire. -/
def nextTime (_ : Expiration K V) (e : Entry K V) : Option Nat := e.expires

/-- The timeout of writes that ask for none. -/
def defaultTimeout (x : Expiration K V) : Option Duration :=
  match x with
  | .timeout default | .filtered _ default => default
  | .custom .. => none

/-- The rule that stamps one and the same deadline on every write. -/
def fixed (time : Nat) : Expiration K V := .custom (fun _ _ => some time) pastDeadline

end Expiration

/-- Common conditions under which an entry counts as stale. -/
inductive StaleWhen (V : Type) where
  | always
  | never
  | expired
  | idleOver (ms : Nat)
  | hitsAtLeast (count : Nat)
  | versionAtLeast (version : Nat)
  | sizeAtLeast (size : Nat)
  | valueIs (value : V)
  | keyStartsWith (start : String)
  deriving DecidableEq, Repr

/-- Whether the condition holds of an entry at a time. -/
def StaleWhen.holds {V : Type} [DecidableEq V] (condition : StaleWhen V)
    (e : Entry String V) (now : Nat) : Bool :=
  match condition with
  | .always => true
  | .never => false
  | .expired => Expiration.pastDeadline e now
  | .idleOver ms => decide (ms < now - e.accessed)
  | .hitsAtLeast count => decide (count ≤ e.hits)
  | .versionAtLeast version => decide (version ≤ e.version)
  | .sizeAtLeast size => decide (size ≤ e.size)
  | .valueIs value => decide (e.value = value)
  | .keyStartsWith start => start.toList.isPrefixOf e.key.toList

end BoundedCache
