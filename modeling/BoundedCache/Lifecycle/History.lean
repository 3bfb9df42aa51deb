import BoundedCache.Lifecycle

/-!
# Histories of a lifecycle

The calls that move a lifecycle, as data, with starts that fail and starts during
which the cache is shut down.  An `Observed` lifecycle remembers every state that a
start has gone through, how many starts there were, and how many shutdowns took
effect.
-/

namespace BoundedCache

namespace Lifecycle

/-- What happens during a start. -/
inductive StartStep where
  | shutDown
  | drained
  | fail
  deriving DecidableEq, Repr

/-- A lifecycle with what was seen of it during starts. -/
structure Observed where
  state : Lifecycle := .ready
  seen : List Lifecycle := []
  starts : Nat := 0
  shutdowns : Nat := 0
  deriving DecidableEq, Repr

/-- The error of a start that finds nobody to do the work. -/
def noWorker : CacheError := { kind := .rejected, message := "no worker" }

namespace Observed

/-- Change the state without looking. -/
def setState (o : Observed) (state : Lifecycle) : Observed := { o with state := state }

/-- Stop taking work.  The answer is whether that was not done before. -/
def shutDown (o : Observed) : Bool × Observed :=
  let (done, state) := o.state.shutDown
  (done, { o with state := state, shutdowns := o.shutdowns + if done then 1 else 0 })

/-- Look at the state. -/
def look (o : Observed) : Observed := { o with seen := o.seen ++ [o.state] }

/-- Go through the steps of a start, looking at the state after each. -/
def startSteps : List StartStep → Observed → Except CacheError Unit × Observed
  | [], o => (.ok (), o)
  | .fail :: _, o => (.error noWorker, o)
  | .shutDown :: steps, o => startSteps steps o.shutDown.2.look
  | .drained :: steps, o => startSteps steps (o.setState o.state.drained).look

/-- A start of the given steps. -/
def start (steps : List StartStep) (o : Observed) : Except CacheError Unit × Observed :=
  startSteps steps { o with starts := o.starts + 1 }.look

/-- Whether the cache runs, with a start of the given steps if it is ready. -/
def running (o : Observed) (strict : Bool) (steps : List StartStep) :
    Except CacheError Bool × Observed :=
  lazyStart state setState strict (start steps) o

/-- The calls that can move a lifecycle. -/
inductive Call where
  | running (strict : Bool) (steps : List StartStep)
  | shutDown
  | drained
  deriving DecidableEq, Repr

/-- The lifecycle after one call. -/
def step (o : Observed) : Call → Observed
  | .running strict steps => (o.running strict steps).2
  | .shutDown => o.shutDown.2
  | .drained => o.setState o.state.drained

/-- The lifecycle after a sequence of calls. -/
def run (o : Observed) (calls : List Call) : Observed := calls.foldl step o

end Observed

end Lifecycle

end BoundedCache
