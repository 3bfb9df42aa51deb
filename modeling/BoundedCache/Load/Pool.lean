import BoundedCache.Load.Desk

/-!
# Loads on their own

A pool is a desk without a cache.  Each load brings its own program, and what it
finds becomes an entry that is written nowhere.  Everything that can happen to loads
happens here too: they are shared, dropped, cancelled, refused, and keep a cache
from terminating; so the rules of the coordinator can be studied on a pool alone.
-/

namespace BoundedCache

/-- A waiter of a pool: its hold until it is gone, and the answer that it got. -/
structure PoolWaiter (K V : Type) where
  hold : Option (LoadHandle K)
  answer : Option (Answer K V) := none

/-- A desk with its waiters. -/
structure LoadPool (K V : Type) where
  desk : LoadDesk K V (Answer K V) := {}
  waiters : List (PoolWaiter K V) := []
  /-- The loads started, the latest first. -/
  started : List (LoadHandle K) := []

namespace LoadPool

variable {K V : Type} [DecidableEq K]

/-- What can happen in a pool. -/
inductive Request (K V : Type) where
  | start
  | load (key : K) (program : LoadProgram V)
  | poll (waiter : Nat)
  | drop (waiter : Nat)
  | openGate (key : K)
  | run (count : Option Nat)
  /-- The executor polls the task of a load, whether or not it has a ticket. -/
  | pollTask (load : Nat)
  /-- The task of a load is polled and finds an answer that no program describes. -/
  | settle (load : Nat) (answer : Answer K V)
  /-- The executor drops the task of a load. -/
  | abandon (load : Nat)
  /-- The executor treats what it is given another way from now on. -/
  | treat (spawning blocking : Admission)
  | cancelAll
  | shutDown
  | mayDrain

/-- What a pool answers. -/
inductive Reply (K V : Type) where
  | done
  | flag (value : Bool)
  | failed (error : CacheError)
  /-- A waiter, and whether a load was started for it. -/
  | issued (waiter : Nat) (started : Bool)
  | pending
  | ready (answer : Answer K V)
  | gone

/-- The state of the pool. -/
def lifecycle (p : LoadPool K V) : Lifecycle := p.desk.coordinator.lifecycle

/-- The pool in another state. -/
def setLifecycle (p : LoadPool K V) (state : Lifecycle) : LoadPool K V :=
  { p with desk := { p.desk with coordinator := { p.desk.coordinator with lifecycle := state } } }

/-! ## Running a load -/

/-- The answer of a load that ends with an outcome. -/
def answerOf (handle : LoadHandle K) : LoadOutcome V → Answer K V
  | .value value => .ok (some (.new handle.key value {} none 0))
  | .nothing => .ok none
  | .error shown => .error (.loader ⟨.message shown, handle.id⟩)
  | .panic _ => .error .cancelled

/-- Run the program of a task up to its next stop. -/
def proceed (p : LoadPool K V) (task : LoadTask K V) (program : LoadProgram V) : LoadPool K V :=
  match program.run task.attributes with
  | (_, .finished outcome) | (_, .offloaded outcome) =>
      { p with desk := p.desk.finish task.handle (answerOf task.handle outcome) }
  | (_, .atGate rest) => { p with desk := p.desk.setTask { task with phase := .atGate rest } }

/-- Poll the task of a load. -/
def pollTask (p : LoadPool K V) (id : Nat) : LoadPool K V :=
  match p.desk.poll? id with
  | none => p
  | some (.aborted task) => { p with desk := p.desk.finish task.handle (.error .cancelled) }
  | some (.begin task program) =>
      p.proceed task (program.getD (.finish .nothing))
  | some (.resume task rest) => p.proceed task rest
  | some (.settle task outcome) =>
      { p with desk := p.desk.finish task.handle (answerOf task.handle outcome) }

/-- Poll the task of a load, which finds the given answer unless the load was
cancelled. -/
def settle (p : LoadPool K V) (id : Nat) (answer : Answer K V) : LoadPool K V :=
  match p.desk.task? id with
  | none => p
  | some task =>
      let answer := if p.desk.coordinator.isCancelled id then .error .cancelled else answer
      { p with desk := p.desk.finish task.handle answer }

/-- Run the first `count` tickets of the queue. -/
def runQueue : (count : Nat) → LoadPool K V → LoadPool K V
  | 0, p => p
  | count + 1, p =>
      match p.desk.executor.next? with
      | none => p
      | some (ticket, executor) =>
          let p := { p with desk := { p.desk with executor := executor } }
          runQueue count (match ticket with
            | .task id => p.pollTask id
            | .job _ => p)

/-! ## Requests -/

/-- One more waiter, who holds a load. -/
def issue (p : LoadPool K V) (handle : LoadHandle K) (started : Bool) :
    Reply K V × LoadPool K V :=
  (.issued p.waiters.length started,
    { p with
      waiters := p.waiters ++ [{ hold := some handle }]
      started := if started then handle :: p.started else p.started })

/-- Ask for a load. -/
def load (p : LoadPool K V) (key : K) (program : LoadProgram V) : Reply K V × LoadPool K V :=
  match p.desk.request key {} false (some program) .error with
  | ((.refused e, _), desk) => (.failed e, { p with desk := desk })
  | ((.joined handle, _), desk) => { p with desk := desk }.issue handle false
  | ((.started handle, .later), desk) => { p with desk := desk }.issue handle true
  | ((.started handle, .now), desk) =>
      ({ p with desk := desk }.pollTask handle.id).issue handle true

/-- The hold of a waiter, unless it is gone. -/
def hold? (p : LoadPool K V) (waiter : Nat) : Option (LoadHandle K) := do
  (← p.waiters[waiter]?).hold

/-- The answer that a waiter got. -/
def answer? (p : LoadPool K V) (waiter : Nat) : Option (Answer K V) := do
  (← p.waiters[waiter]?).answer

/-- A waiter leaves, perhaps with an answer. -/
def depart (p : LoadPool K V) (waiter : Nat) (handle : LoadHandle K)
    (answer : Option (Answer K V)) : LoadPool K V :=
  { p with
    desk := p.desk.detach (.error .cancelled) handle
    waiters := p.waiters.set waiter { hold := none, answer := answer } }

/-- Answer one request. -/
def step (p : LoadPool K V) : Request K V → Reply K V × LoadPool K V
  | .start =>
      match Lifecycle.lazyStart lifecycle setLifecycle true (fun p => (.ok (), p)) p with
      | (.ok running, p) => (.flag running, p)
      | (.error e, p) => (.failed e, p)
  | .load key program => p.load key program
  | .poll waiter =>
      match p.hold? waiter with
      | none => (.gone, p)
      | some handle =>
          match p.desk.coordinator.answer? handle.id with
          | none => (.pending, p)
          | some answer => (.ready answer, p.depart waiter handle (some answer))
  | .drop waiter =>
      match p.hold? waiter with
      | none => (.done, p)
      | some handle => (.done, p.depart waiter handle none)
  | .openGate key => (.done, { p with desk := p.desk.openGate key })
  | .run count => (.done, p.runQueue (count.getD p.desk.workLeft))
  | .pollTask load => (.done, p.pollTask load)
  | .settle load answer => (.done, p.settle load answer)
  | .abandon load => (.done, { p with desk := p.desk.abandon load .error })
  | .treat spawning blocking =>
      (.done,
        { p with desk := { p.desk with executor := p.desk.executor.treat spawning blocking } })
  | .cancelAll => (.done, { p with desk := p.desk.cancelAll (.error .cancelled) })
  | .shutDown =>
      let (done, coordinator) := p.desk.coordinator.shutDown
      (.flag done, { p with desk := { p.desk with coordinator := coordinator } })
  | .mayDrain =>
      (.done, { p with desk := { p.desk with coordinator := p.desk.coordinator.mayDrain } })

/-- The pool after a sequence of requests. -/
def run (p : LoadPool K V) (requests : List (Request K V)) : LoadPool K V :=
  requests.foldl (fun p request => (p.step request).2) p

/-- Whether two waiters got errors with one and the same cause; nothing if one of
them got none. -/
def sameSource? (p : LoadPool K V) (first second : Nat) : Option Bool :=
  match p.answer? first, p.answer? second with
  | some (.error a), some (.error b) => some (a.sameSource b)
  | _, _ => none

/-- Whether the load that was started last for a key was cancelled. -/
def lastCancelled? (p : LoadPool K V) (key : K) : Option Bool :=
  (p.started.find? fun handle => handle.key = key).map fun handle =>
    p.desk.coordinator.isCancelled handle.id

end LoadPool

end BoundedCache
