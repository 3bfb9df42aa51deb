import BoundedCache.Format
import BoundedCache.Policy
import BoundedCache.Time

/-!
# Configurations as documents

A configuration is a record of six fields, each of which has a default, and a policy
is one of seven choices, each of which is a record of its settings.  How records and
choices are read is the format's part.
-/

namespace BoundedCache

namespace PolicyChoice

/-- The name of a policy in documents. -/
def name : PolicyChoice → String
  | .fifo => "fifo"
  | .lifo => "lifo"
  | .lru => "lru"
  | .mru => "mru"
  | .lfu => "lfu"
  | .clock => "clock"
  | .random _ => "random"

/-- A policy as a document: one field, named for the policy, with its settings. -/
def toDocument (p : PolicyChoice) : Document :=
  let settings := match p with
    | .random seed => [("seed", Document.ofOptionalWord seed)]
    | _ => []
  .object [(p.name, .object settings)]

/-- The policies that have no settings. -/
def plain : List PolicyChoice := [.fifo, .lifo, .lru, .mru, .lfu, .clock]

/-- The names of the policies. -/
def names : List String := ["fifo", "lifo", "lru", "mru", "lfu", "clock", "random"]

/-- The policy of a document.  The seed of the random policy may be missing, but an array must give
it. -/
def ofDocument? (F : Format) (d : Document) : Option PolicyChoice := do
  let (name, settings) ← F.choice? names d
  if name = "random" then
    match ← F.record? false ["seed"] settings with
    | [seed] => (Format.fieldOr F.optionalWord? none seed).map .random
    | _ => none
  else
    let _ ← F.record? false [] settings
    plain.find? fun p => p.name = name

end PolicyChoice

/-- The settings of a cache.  A limit that is not given does not exist. -/
structure Config where
  name : String := "cachet"
  maxEntries : Option UInt64 := none
  maxVolume : Option UInt64 := none
  defaultTimeoutMs : Option UInt64 := none
  policy : PolicyChoice := .lru
  sweepIntervalMs : Option UInt64 := none
  deriving DecidableEq, Repr, Inhabited

namespace Config

/-- The lifetime of entries written without a timeout. -/
def defaultTimeout (c : Config) : Option Duration :=
  c.defaultTimeoutMs.map fun ms => Duration.ofMillis ms.toNat

/-- The period of the sweep for expired entries. -/
def sweepInterval (c : Config) : Option Duration :=
  c.sweepIntervalMs.map fun ms => Duration.ofMillis ms.toNat

/-- The names of the fields, in their order. -/
def fieldNames : List String :=
  ["name", "max_entries", "max_volume", "default_timeout_ms", "policy", "sweep_interval_ms"]

/-- The configuration as an object of all its fields. -/
def toDocument (c : Config) : Document :=
  .object [
    ("name", .string c.name),
    ("max_entries", .ofOptionalWord c.maxEntries),
    ("max_volume", .ofOptionalWord c.maxVolume),
    ("default_timeout_ms", .ofOptionalWord c.defaultTimeoutMs),
    ("policy", c.policy.toDocument),
    ("sweep_interval_ms", .ofOptionalWord c.sweepIntervalMs)]

/-- The configuration of a document. -/
def ofDocument? (F : Format) (d : Document) : Option Config := do
  match ← F.record? true fieldNames d with
  | [name, maxEntries, maxVolume, timeout, policy, sweep] =>
      let default : Config := {}
      let name ← Format.fieldOr F.text? default.name name
      let maxEntries ← Format.fieldOr F.optionalWord? default.maxEntries maxEntries
      let maxVolume ← Format.fieldOr F.optionalWord? default.maxVolume maxVolume
      let timeout ← Format.fieldOr F.optionalWord? default.defaultTimeoutMs timeout
      let policy ← Format.fieldOr (PolicyChoice.ofDocument? F) default.policy policy
      let sweep ← Format.fieldOr F.optionalWord? default.sweepIntervalMs sweep
      return ⟨name, maxEntries, maxVolume, timeout, policy, sweep⟩
  | _ => none

end Config

end BoundedCache
