import BoundedCache.Entry

/-!
# What a load does

A loader answers a call with a program: it may replace the attributes that the
value will be written with, wait at a gate that somebody else opens, hand the rest
to a blocking thread, and in the end it has an outcome.
-/

namespace BoundedCache

/-- How a load ends. -/
inductive LoadOutcome (V : Type) where
  | value (value : V)
  /-- There is no value. -/
  | nothing
  /-- The loader failed, with an error that shows as this text. -/
  | error (shown : String)
  | panic (shown : String)
  deriving DecidableEq, Repr

/-- What a loader gets to know about one load. -/
structure LoadContext where
  /-- The attributes that the value will be written with, unless the loader replaces them. -/
  attributes : Attributes
  /-- Whether the load bypasses an entry that is there.  A blocking loader is not told. -/
  forced : Option Bool
  deriving DecidableEq, Repr

/-- What a load still has to do. -/
inductive LoadProgram (V : Type) where
  | finish (outcome : LoadOutcome V)
  | awaitGate (rest : LoadProgram V)
  /-- The value will be written with these attributes, whatever they were before. -/
  | setAttributes (attributes : Attributes) (rest : LoadProgram V)
  /-- The outcome is found on a blocking thread. -/
  | offload (outcome : LoadOutcome V)
  deriving DecidableEq, Repr

/-- Where a program comes to a stop. -/
inductive Stop (V : Type) where
  | finished (outcome : LoadOutcome V)
  | atGate (rest : LoadProgram V)
  | offloaded (outcome : LoadOutcome V)
  deriving DecidableEq, Repr

namespace LoadProgram

variable {V : Type}

/-- Run a program up to its next stop. -/
def run (a : Attributes) : LoadProgram V → Attributes × Stop V
  | .finish outcome => (a, .finished outcome)
  | .awaitGate rest => (a, .atGate rest)
  | .setAttributes attributes rest => run attributes rest
  | .offload outcome => (a, .offloaded outcome)

/-- Run a program to its end on a blocking thread, where nothing is waited for. -/
def runThrough (a : Attributes) : LoadProgram V → Attributes × LoadOutcome V
  | .finish outcome => (a, outcome)
  | .awaitGate rest => runThrough a rest
  | .setAttributes attributes rest => runThrough attributes rest
  | .offload outcome => (a, outcome)

end LoadProgram

/-- A loader: whether it runs on a blocking thread, and its program for a key, which
may depend on how often the loader was called for that key before and on what it gets
to know about the load. -/
structure Loader (K V : Type) where
  blocking : Bool
  program : K → Nat → LoadContext → LoadProgram V

end BoundedCache
