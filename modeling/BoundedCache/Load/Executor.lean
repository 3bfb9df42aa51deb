import BoundedCache.Error

/-!
# Executors

The cache owns no thread.  It hands tasks and blocking jobs to an executor, which
puts them into one queue, runs them on the spot, refuses them, or accepts and drops
them.  Whoever runs the queue takes its tickets one by one; a task that is woken
gets a ticket unless it has one already.
-/

namespace BoundedCache

/-- How an executor treats what it is given. -/
inductive Admission where
  | queue
  | inline
  | reject
  | drop
  deriving DecidableEq, Repr, Inhabited

/-- A place in the queue: the task of a load, or the job that it waits for. -/
inductive Ticket where
  | task (load : Nat)
  | job (load : Nat)
  deriving DecidableEq, Repr

/-- An executor with its queue. -/
structure Executor where
  spawning : Admission := .queue
  blocking : Admission := .queue
  /-- The error with which it refuses what it is given. -/
  refusal : CacheError := .exhausted
  /-- Whether it takes tasks that are run again and again. -/
  repeating : Bool := true
  /-- The number of tasks that it will still accept, if that is limited. -/
  allowance : Option Nat := none
  /-- Whether it has timers of its own; else repeated tasks are run by hand. -/
  timed : Bool := false
  queue : List Ticket := []
  deriving Inhabited

namespace Executor

/-- The executor with another treatment of what it is given. -/
def treat (e : Executor) (spawning blocking : Admission) : Executor :=
  { e with spawning := spawning, blocking := blocking }

/-- Decide on one more task. -/
def admitTask (e : Executor) : Admission × Executor :=
  match e.allowance with
  | some 0 => (.reject, e)
  | allowance =>
      match e.spawning with
      | .reject => (.reject, e)
      | admission => (admission, { e with allowance := allowance.map (· - 1) })

/-- Give a ticket, unless there is one already. -/
def wake (e : Executor) (ticket : Ticket) : Executor :=
  if ticket ∈ e.queue then e else { e with queue := e.queue ++ [ticket] }

/-- Take the first ticket. -/
def next? (e : Executor) : Option (Ticket × Executor) :=
  match e.queue with
  | [] => none
  | ticket :: queue => some (ticket, { e with queue := queue })

/-- What came of one blocking job whose answer somebody waits for: the answer at
once, an error, or an answer after the queue has run. -/
inductive JobResult (α : Type) where
  | now (result : Except CacheError α)
  | later (result : Except CacheError α)

/-- Run a function that answers `a` as a blocking job. -/
def runBlocking {α : Type} (e : Executor) (a : α) : JobResult α :=
  match e.blocking with
  | .inline => .now (.ok a)
  | .queue => .later (.ok a)
  | .reject => .now (.error e.refusal)
  | .drop => .now (.error .jobDropped)

end Executor

/-- Whether a repeated task goes on. -/
inductive Flow where
  | more
  | done
  deriving DecidableEq, Repr

/-- Run a repeated task until it is done, at most `fuel` times. -/
def repeatTask {σ : Type} (task : σ → Flow × σ) : Nat → σ → σ
  | 0, s => s
  | fuel + 1, s =>
      match task s with
      | (.done, s) => s
      | (.more, s) => repeatTask task fuel s

/-- A repeated task that counts down, and the counts that it has passed. -/
def countDown (s : Nat × List Nat) : Flow × (Nat × List Nat) :=
  let left := s.1 - 1
  (if left = 0 then .done else .more, (left, s.2 ++ [left]))

end BoundedCache
