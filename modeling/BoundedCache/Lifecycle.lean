import BoundedCache.Error

/-!
# Lifecycle

A cache is started by its first use and moves forward only: ready, starting,
running, shut down, stopping, terminated.  A failed start is final, and a
shutdown during the start wins over it.  A cache that is shut down terminates once
nothing is pending any more.
-/

namespace BoundedCache

/-- The states of a cache, in their order. -/
inductive Lifecycle where
  | ready
  | starting
  | running
  | shutdown
  | stopping
  | terminated
  deriving DecidableEq, Repr, Inhabited

namespace Lifecycle

/-- The place of a state in their order. -/
def rank : Lifecycle → Nat
  | .ready => 0
  | .starting => 1
  | .running => 2
  | .shutdown => 3
  | .stopping => 4
  | .terminated => 5

/-- The name of a state. -/
def name : Lifecycle → String
  | .ready => "Ready"
  | .starting => "Starting"
  | .running => "Running"
  | .shutdown => "Shutdown"
  | .stopping => "Stopping"
  | .terminated => "Terminated"

/-- Whether state `s` is `other` or a later one. -/
def isAtLeast (s other : Lifecycle) : Bool := decide (other.rank ≤ s.rank)

/-- Whether the cache has been shut down, or has even terminated. -/
def isDown (s : Lifecycle) : Bool := s.isAtLeast .shutdown

/-- The order of two states. -/
def compare (a b : Lifecycle) : Ordering := Ord.compare a.rank b.rank

/-- Stop taking work.  The answer is whether that was not done before. -/
def shutDown (s : Lifecycle) : Bool × Lifecycle :=
  if s.isDown then (false, s) else (true, .shutdown)

/-- Nothing is pending any more: a cache that is shut down terminates. -/
def drained (s : Lifecycle) : Lifecycle := if s = .shutdown then .terminated else s

/-- The state after a start that succeeded: a shutdown in between wins. -/
def started (s : Lifecycle) : Lifecycle := if s = .starting then .running else s

/-- The state after a start that failed. -/
def startFailed (s : Lifecycle) : Lifecycle := if s.isDown then s else .shutdown

/-- What a caller is told of a state: whether the cache runs, or, if the caller
insists on that, an error. -/
def availability (s : Lifecycle) (strict : Bool) : Except CacheError Bool :=
  if s = .running then .ok true
  else if strict then .error (.unavailable s.name)
  else .ok false

/-- Whether the cache runs, starting it first if it is ready.  The state is a part
of some larger world, read by `view` and written by `update`; `start` may change all
of that world. -/
def lazyStart {σ : Type} (view : σ → Lifecycle) (update : σ → Lifecycle → σ) (strict : Bool)
    (start : σ → Except CacheError Unit × σ) (world : σ) : Except CacheError Bool × σ :=
  if view world = .ready then
    match start (update world .starting) with
    | (.ok (), world) =>
        let world := update world (view world).started
        ((view world).availability strict, world)
    | (.error e, world) =>
        (if strict then .error e else .ok false, update world (view world).startFailed)
  else ((view world).availability strict, world)

end Lifecycle

end BoundedCache
