import BoundedCache.Cache.Basic
import BoundedCache.Config

/-!
# Building a cache

A builder collects the parts of a cache and checks that they go together.  Nothing
else is checked later: a cache that is built works.

The statistics are the first hook of all, and the listeners, if there are any, form
the last one.
-/

namespace BoundedCache

/-- The parts of a cache.  A part that is not given has a default, except for the
executor: a cache needs one. -/
structure Builder (K V : Type) where
  name : String := "cachet"
  maxEntries : Nat := unbounded
  maxVolume : Nat := unbounded
  policy : Policy K := PolicyChoice.lru.build
  /-- How the map of the entries is gone through. -/
  walk : Walk (Slot K V) := .plain
  defaultTimeout : Option Duration := none
  /-- A condition under which an entry is stale before its deadline. -/
  stale : Option (Entry K V → Nat → Bool) := none
  /-- A rule of expiration of one's own. -/
  expiration : Option (Expiration K V) := none
  sweepInterval : Option Duration := none
  loader : Option (Loader K V) := none
  executor : Option Executor := none
  clock : Nat := 0
  listeners : List (Listener K V) := []
  hooks : List (Hook K V) := []

namespace Builder

variable {K V : Type} [DecidableEq K]

/-- Take over all settings of a configuration. -/
def configure (b : Builder K V) (config : Config) : Builder K V :=
  { b with
    name := config.name
    maxEntries := (config.maxEntries.map UInt64.toNat).getD unbounded
    maxVolume := (config.maxVolume.map UInt64.toNat).getD unbounded
    defaultTimeout := config.defaultTimeout
    policy := config.policy.build
    sweepInterval := config.sweepInterval }

/-- What is wrong with the parts, before an executor is looked for. -/
def objection? (b : Builder K V) : Option Fault :=
  if b.name.isEmpty then some (.config "cache name must not be empty")
  else if b.sweepInterval.any Duration.isZero then
    some (.config "sweep interval must be greater than zero")
  else if b.expiration.isSome && (b.defaultTimeout.isSome || b.stale.isSome) then
    some (.config "custom expiration policy conflicts with expiration timeout or predicate")
  else none

/-- The rule of expiration that the parts make up. -/
def expirationRule (b : Builder K V) : Expiration K V :=
  match b.expiration, b.stale with
  | some rule, _ => rule
  | none, some stale => .filtered stale b.defaultTimeout
  | none, none => .timeout b.defaultTimeout

/-- All hooks, in the order of registration. -/
def allHooks (b : Builder K V) : List (Hook K V) :=
  Hook.statistics :: b.hooks ++
    if b.listeners.isEmpty then [] else [Hook.listeners .event b.listeners]

/-- The cache of these parts. -/
def build (b : Builder K V) : Except CacheError (Cache K V) :=
  match b.objection?, b.executor with
  | some fault, _ => .error (.ofFault fault 0)
  | none, none => .error .noExecutor
  | none, some executor =>
      if b.policy.isEmpty then
        let store : Store K V := .new b.policy b.maxEntries b.maxVolume b.walk
        .ok
          { name := b.name
            store := store
            expiration := b.expirationRule
            hooks := .ofHooks b.allHooks
            ledger := { metrics := Metrics.gauge {} store }
            clock := b.clock
            loader := b.loader
            desk := { executor := executor }
            sweepInterval := b.sweepInterval }
      else .error (.ofFault (.config "replacement policy must be empty") 0)

end Builder

end BoundedCache
