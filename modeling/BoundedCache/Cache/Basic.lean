import BoundedCache.Hook
import BoundedCache.Load.Desk
import BoundedCache.Transaction

/-!
# The cache

A cache is a store with everything around it: the rule of expiration, the chain of
hooks and the ledger that they fill, the clock, the loader and the desk where loads
are at work.

This module has the two things that all operations share.

* `perform` brackets a change of the store between the hooks: they are called
  before it, the store changes in one step, and its outcomes are told in order.
* `whenRunning` and `ifRunning` let an operation through only if the cache runs,
  starting it on its first use.  A strict operation answers an error otherwise, any
  other does nothing.

A hook may call back into the cache.  Such a call is carried out there and then,
with its own calls of the hooks inside.  Hooks that never stop calling back would not
come to an end, so calls nest up to `nestingLimit` only, and what is asked for deeper
down is left out.
-/

namespace BoundedCache

/-- The repeated task that removes stale entries. -/
structure Sweeper where
  period : Duration
  /-- When it runs next, in nanoseconds on the executor's own time. -/
  due : Nat
  deriving DecidableEq, Repr

/-- A cache. -/
structure Cache (K V : Type) where
  name : String
  store : Store K V
  expiration : Expiration K V := .timeout none
  hooks : HookChain K V := {}
  ledger : Ledger K V := {}
  clock : Nat := 0
  loader : Option (Loader K V) := none
  /-- The calls of the loader, the latest first. -/
  loaderCalls : List (LoadHandle K) := []
  desk : LoadDesk K V (Answer K V) := {}
  sweepInterval : Option Duration := none
  sweeper : Option Sweeper := none
  /-- The executor's own time in nanoseconds, if it has timers. -/
  elapsed : Nat := 0

namespace Cache

variable {K V : Type} [DecidableEq K]

/-- The state of the cache. -/
def lifecycle (c : Cache K V) : Lifecycle := c.desk.coordinator.lifecycle

/-- The cache in another state. -/
def setLifecycle (c : Cache K V) (state : Lifecycle) : Cache K V :=
  { c with desk := { c.desk with coordinator := { c.desk.coordinator with lifecycle := state } } }

/-- Write something down. -/
def note (c : Cache K V) (n : Note K V) : Cache K V := { c with ledger := c.ledger.note n }

/-- Change the metrics. -/
def measure (c : Cache K V) (change : Metrics → Metrics) : Cache K V :=
  { c with ledger := { c.ledger with metrics := change c.ledger.metrics } }

/-! ## Start and shutdown -/

/-- Terminate if the cache is shut down and nothing is pending. -/
def mayDrain (c : Cache K V) : Cache K V :=
  { c with desk := { c.desk with coordinator := c.desk.coordinator.mayDrain } }

/-- Hand the sweeper to the executor, if there is to be one. -/
def startSweeper (c : Cache K V) : Except CacheError Unit × Cache K V :=
  match c.sweepInterval with
  | none => (.ok (), c)
  | some period =>
      if c.desk.executor.repeating then
        (.ok (), { c with sweeper := some ⟨period, c.elapsed + period.nanos⟩ })
      else (.error (c.desk.executor.refusal.withContext "task" "sweeper"), c)

/-- Whether the cache runs, starting it on its first use.  A failed start leaves
nothing to wait for. -/
def running (c : Cache K V) (strict : Bool) : Except CacheError Bool × Cache K V :=
  match Lifecycle.lazyStart lifecycle setLifecycle strict startSweeper c with
  | (.ok true, c) => (.ok true, c)
  | (answer, c) => (answer, c.mayDrain)

/-- Let a strict operation through if the cache runs. -/
def whenRunning {α : Type} (c : Cache K V) (operation : Cache K V → α × Cache K V) :
    Except CacheError α × Cache K V :=
  match c.running true with
  | (.error e, c) => (.error e, c)
  | (.ok _, c) => (operation c).map .ok id

/-- Let any other operation through if the cache runs; else answer `idle`. -/
def ifRunning {α : Type} (c : Cache K V) (idle : α) (operation : Cache K V → α × Cache K V) :
    α × Cache K V :=
  match c.running false with
  | (.ok true, c) => operation c
  | (_, c) => (idle, c)

/-- Start the cache. -/
def start (c : Cache K V) : Except CacheError Unit × Cache K V := c.whenRunning fun c => ((), c)

/-- Stop taking work; loads that are pending may still end.  The answer is whether
that was not done before. -/
def shutDown (c : Cache K V) : Bool × Cache K V :=
  let (done, state) := c.lifecycle.shutDown
  (done, (c.setLifecycle state).mayDrain)

/-- Stop taking work and cancel the pending loads. -/
def shutDownNow (c : Cache K V) : Bool × Cache K V :=
  let (done, state) := c.lifecycle.shutDown
  let c := c.setLifecycle state
  (done, { c with desk := c.desk.cancelAll (.error .cancelled) })

/-! ## Changes between hooks -/

/-- How hooks are called. -/
abbrev Dispatch (K V : Type) := Cache K V → Token → Option (Outcome K V) → Cache K V

/-- Carry out a change, given how hooks are called. -/
def performWith {α : Type} (dispatch : Dispatch K V) (c : Cache K V) (change : Change K V α) :
    α × Cache K V :=
  let token : Token := ⟨change.operation, c.clock⟩
  let c := dispatch c token none
  let t := change.apply c.store c.clock
  let c := { c with store := t.store }
  let c := if t.gauged then c.measure (·.gauge c.store) else c
  (t.answer, t.outcomes.foldl (fun c outcome => dispatch c token (some outcome)) c)

/-- Carry out what a hook asks for, given how hooks are called. -/
def obeyWith (dispatch : Dispatch K V) (c : Cache K V) : Command K V → Cache K V
  | .shutDown => c.shutDown.2
  | .carryOut errand _ =>
      match c.running errand.strict with
      | (.ok true, c) => (c.performWith dispatch (errand.change c.expiration)).2
      | (_, c) => c

/-- Call one hook, do what it asks for, and report its failure. -/
def callHook (obey : Cache K V → Command K V → Cache K V) (token : Token)
    (outcome : Option (Outcome K V)) (c : Cache K V) (hook : Hook K V) : Cache K V :=
  let ((commands, failure), ledger) := c.ledger.call hook token outcome c.store.keys
  let c := commands.foldl obey { c with ledger := ledger }
  { c with ledger := c.ledger.report hook token failure }

/-- Call every hook of the chain; calls back into the cache nest at most `depth`
deep. -/
def dispatch : (depth : Nat) → Dispatch K V
  | 0, c, token, outcome =>
      c.hooks.hooks.foldl (callHook (fun c _ => c) token outcome) c
  | depth + 1, c, token, outcome =>
      c.hooks.hooks.foldl (callHook (obeyWith (dispatch depth)) token outcome) c

/-- How deep calls of hooks back into the cache nest.  A hook that is called deeper down is
called like any other, but nothing comes of what it asks for.  No hook nests so deep unless it
calls back on its own calls. -/
def nestingLimit : Nat := 64

/-- Carry out a change. -/
def perform {α : Type} (c : Cache K V) (change : Change K V α) : α × Cache K V :=
  c.performWith (dispatch nestingLimit) change

end Cache

end BoundedCache
