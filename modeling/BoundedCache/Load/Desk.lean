import BoundedCache.Load.Coordinator
import BoundedCache.Load.Executor
import BoundedCache.Load.Program

/-!
# Loads at work

The desk brings together the coordinator, the executor, and the tasks that run the
loads.  A task is fresh until it is first polled; then it runs its program and may
come to wait at a gate or for a blocking job.  A task whose load is cancelled is
woken and ends at its next poll without going on.

The desk does not know what a load is for: `poll?` says what a task has to do next,
and its owner, a cache or whoever else loads things, does that and settles the load
with an answer.
-/

namespace BoundedCache

/-- What a blocking job does. -/
inductive Work (V : Type) where
  /-- Call the loader; the program is found then. -/
  | callLoader
  /-- Find the outcome. -/
  | find (outcome : LoadOutcome V)
  deriving DecidableEq, Repr

/-- How far a task has come. -/
inductive Phase (V : Type) where
  /-- It was never polled.  What it has to do may be known already; else its owner
  finds out. -/
  | fresh (program : Option (LoadProgram V))
  | atGate (rest : LoadProgram V)
  /-- It can go on with its program. -/
  | ready (rest : LoadProgram V)
  | onJob (work : Work V)
  | answered (outcome : LoadOutcome V)
  deriving DecidableEq, Repr

/-- The task of a load. -/
structure LoadTask (K V : Type) where
  handle : LoadHandle K
  forced : Bool
  attributes : Attributes
  phase : Phase V := .fresh none
  deriving DecidableEq, Repr

/-- What a loader gets to know when it is called for a task. -/
def LoadTask.context {K V : Type} (task : LoadTask K V) (loader : Loader K V) : LoadContext where
  attributes := task.attributes
  forced := if loader.blocking then none else some task.forced

/-- The program of a loader for a task, if it was called `count` times for its key before. -/
def Loader.programFor {K V : Type} (loader : Loader K V) (task : LoadTask K V) (count : Nat) :
    LoadProgram V :=
  loader.program task.handle.key count (task.context loader)

/-- What a task has to do when it is polled. -/
inductive Poll (K V : Type) where
  /-- Its load was cancelled. -/
  | aborted (task : LoadTask K V)
  | begin (task : LoadTask K V) (program : Option (LoadProgram V))
  | resume (task : LoadTask K V) (rest : LoadProgram V)
  | settle (task : LoadTask K V) (outcome : LoadOutcome V)

/-- Coordinator, executor and tasks. -/
structure LoadDesk (K V ρ : Type) where
  coordinator : Coordinator K ρ := {}
  executor : Executor := {}
  tasks : List (LoadTask K V) := []
  /-- Tasks that the executor has dropped while their jobs were waiting.  The jobs are still to
  be run. -/
  orphans : List (LoadTask K V) := []

namespace LoadDesk

variable {K V ρ : Type} [DecidableEq K]

/-- The task of a load. -/
def task? (d : LoadDesk K V ρ) (id : Nat) : Option (LoadTask K V) :=
  d.tasks.find? fun task => task.handle.id = id

/-- The desk with the task of the same load replaced. -/
def setTask (d : LoadDesk K V ρ) (task : LoadTask K V) : LoadDesk K V ρ :=
  { d with
    tasks := d.tasks.map fun other => if other.handle.id = task.handle.id then task else other }

/-- The desk without the task of a load. -/
def dropTask (d : LoadDesk K V ρ) (id : Nat) : LoadDesk K V ρ :=
  { d with tasks := d.tasks.filter fun task => task.handle.id ≠ id }

/-- Wake the task of a load, if there is one. -/
def wake (d : LoadDesk K V ρ) (id : Nat) : LoadDesk K V ρ :=
  match d.task? id with
  | none => d
  | some _ => { d with executor := d.executor.wake (.task id) }

/-- Wake the tasks of several loads. -/
def wakeAll (d : LoadDesk K V ρ) (ids : List Nat) : LoadDesk K V ρ := ids.foldl wake d

/-- Give a load its answer. -/
def complete (d : LoadDesk K V ρ) (handle : LoadHandle K) (answer : ρ) : LoadDesk K V ρ :=
  { d with coordinator := d.coordinator.complete handle.key handle.id answer }

/-- End a task: it goes, and its load gets the answer. -/
def finish (d : LoadDesk K V ρ) (handle : LoadHandle K) (answer : ρ) : LoadDesk K V ρ :=
  (d.dropTask handle.id).complete handle answer

/-- The executor drops a task.  If it was never polled, that counts as a refusal.  A job that
the task waits for stays with the executor. -/
def abandon (d : LoadDesk K V ρ) (id : Nat) (ofError : CacheError → ρ) : LoadDesk K V ρ :=
  match d.task? id with
  | none => d
  | some task =>
      match task.phase with
      | .fresh _ => d.finish task.handle (ofError .dropped)
      | .onJob _ =>
          { d.finish task.handle (ofError .cancelled) with orphans := d.orphans ++ [task] }
      | _ => d.finish task.handle (ofError .cancelled)

/-- One waiter goes. -/
def detach (d : LoadDesk K V ρ) (cancelledAnswer : ρ) (handle : LoadHandle K) :
    LoadDesk K V ρ :=
  let (ids, coordinator) := d.coordinator.detach cancelledAnswer handle
  { d with coordinator := coordinator }.wakeAll ids

/-- Cancel every pending load. -/
def cancelAll (d : LoadDesk K V ρ) (cancelledAnswer : ρ) : LoadDesk K V ρ :=
  let (ids, coordinator) := d.coordinator.cancelAll cancelledAnswer
  { d with coordinator := coordinator }.wakeAll ids

/-- Whether the task of a load that has just been started is to be polled at once. -/
inductive Launch where
  | later
  | now
  deriving DecidableEq, Repr

/-- Hand the task of a new load to the executor.  A task that is refused is dropped
by the executor before the refusal is known, so its load is answered by the drop,
and the refusal comes too late. -/
def launch (d : LoadDesk K V ρ) (task : LoadTask K V) (ofError : CacheError → ρ) :
    Launch × LoadDesk K V ρ :=
  let (admission, executor) := d.executor.admitTask
  let d := { d with executor := executor }
  match admission with
  | .queue =>
      (.later, { d with tasks := d.tasks ++ [task] }.wake task.handle.id)
  | .inline => (.now, { d with tasks := d.tasks ++ [task] })
  | .drop => (.later, d.complete task.handle (ofError .dropped))
  | .reject =>
      (.later, (d.complete task.handle (ofError .dropped)).complete task.handle
        (ofError d.executor.refusal))

/-- Ask for a load of `key`.  If that starts one, its task has the given attributes,
and the given program if there is one already. -/
def request (d : LoadDesk K V ρ) (key : K) (attributes : Attributes) (forced : Bool)
    (program : Option (LoadProgram V)) (ofError : CacheError → ρ) :
    (Attachment K × Launch) × LoadDesk K V ρ :=
  match d.coordinator.attach key with
  | (.started handle, coordinator) =>
      let (launch, d) := { d with coordinator := coordinator }.launch
        { handle := handle, forced := forced, attributes := attributes, phase := .fresh program }
        ofError
      ((.started handle, launch), d)
  | (attachment, coordinator) => ((attachment, .later), { d with coordinator := coordinator })

/-- What the task of a load has to do when it is polled; nothing while it waits. -/
def poll? (d : LoadDesk K V ρ) (id : Nat) : Option (Poll K V) :=
  match d.task? id with
  | none => none
  | some task =>
      if d.coordinator.isCancelled id then some (.aborted task)
      else
        match task.phase with
        | .fresh program => some (.begin task program)
        | .atGate _ | .onJob _ => none
        | .ready rest => some (.resume task rest)
        | .answered outcome => some (.settle task outcome)

/-- Let the tasks that wait at the gate of `key` pass. -/
def openGate (d : LoadDesk K V ρ) (key : K) : LoadDesk K V ρ :=
  d.tasks.foldl (fun d task =>
    match task.phase with
    | .atGate rest =>
        if task.handle.key = key then
          (d.setTask { task with phase := .ready rest }).wake task.handle.id
        else d
    | _ => d) d

/-- How a blocking job was taken: it has to be run at once, its task waits for it, or
its outcome is known already. -/
inductive Submission (V : Type) where
  | runNow
  | waiting
  | known (outcome : LoadOutcome V)

/-- Hand the job of a task to the executor. -/
def submit (d : LoadDesk K V ρ) (task : LoadTask K V) (work : Work V) :
    Submission V × LoadDesk K V ρ :=
  match d.executor.blocking with
  | .queue =>
      let d := d.setTask { task with phase := .onJob work }
      (.waiting, { d with executor := d.executor.wake (.job task.handle.id) })
  | .inline => (.runNow, d)
  | .reject => (.known (.error d.executor.refusal.text), d)
  | .drop => (.known (.error CacheError.jobDropped.text), d)

/-- The outcome of a job as its task sees it: a job that panics is dropped. -/
def jobOutcome : LoadOutcome V → LoadOutcome V
  | .panic _ => .error CacheError.jobDropped.text
  | outcome => outcome

/-- The task of a job that is still to be run though nobody waits for it. -/
def orphan? (d : LoadDesk K V ρ) (id : Nat) : Option (LoadTask K V) :=
  d.orphans.find? fun task => task.handle.id = id

/-- The desk without the job of a task that was dropped. -/
def dropOrphan (d : LoadDesk K V ρ) (id : Nat) : LoadDesk K V ρ :=
  { d with orphans := d.orphans.filter fun task => task.handle.id ≠ id }

/-- The task and work of a job whose turn it is.  It does nothing if the load was cancelled; it
does its work even if its task was dropped. -/
def job? (d : LoadDesk K V ρ) (id : Nat) : Option (LoadTask K V × Work V) :=
  if d.coordinator.isCancelled id then none
  else
    match (d.task? id).or (d.orphan? id) with
    | none => none
    | some task =>
        match task.phase with
        | .onJob work => some (task, work)
        | _ => none

/-- Hand the outcome of a job to its task, if that is still there. -/
def answerJob (d : LoadDesk K V ρ) (task : LoadTask K V) (outcome : LoadOutcome V) :
    LoadDesk K V ρ :=
  match d.task? task.handle.id with
  | some _ => (d.setTask { task with phase := .answered (jobOutcome outcome) }).wake task.handle.id
  | none => d.dropOrphan task.handle.id

/-- A number of tickets after which the queue is empty, if nobody asks for new loads
meanwhile: a task is polled at most three times more and has at most one job. -/
def workLeft (d : LoadDesk K V ρ) : Nat := d.executor.queue.length + 4 * d.tasks.length

end LoadDesk

end BoundedCache
