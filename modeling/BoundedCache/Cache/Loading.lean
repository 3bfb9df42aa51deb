import BoundedCache.Cache.Basic

/-!
# Loads of a cache

A load calls the loader when its task is first polled, or, for a blocking loader,
when its job runs.  A value that is found is written like any other, under the
attributes that the loader has left and with a deadline from that moment; only then
is the load answered.  A load without a value, or with an error, writes nothing.

A reader holds a `Future`: an answer that was there from the start, or a hold on a
load.  Who lets go of the last hold cancels the load.
-/

namespace BoundedCache

/-- What a reader holds. -/
inductive Future (K V : Type) where
  | ready (answer : Answer K V)
  | load (handle : LoadHandle K)

/-- Whether there may be something to wait for. -/
def Future.needsAwait {K V : Type} : Future K V → Bool
  | .ready _ => false
  | .load _ => true

namespace Cache

variable {K V : Type} [DecidableEq K]

/-! ## Holding a load -/

/-- The answer of a future, if there is one. -/
def answer? (c : Cache K V) : Future K V → Option (Answer K V)
  | .ready answer => some answer
  | .load handle => c.desk.coordinator.answer? handle.id

/-- Let go of a future. -/
def release (c : Cache K V) : Future K V → Cache K V
  | .ready _ => c
  | .load handle => { c with desk := c.desk.detach (.error .cancelled) handle }

/-- Let go of several futures. -/
def releaseAll (c : Cache K V) (futures : List (Future K V)) : Cache K V :=
  futures.foldl release c

/-! ## Running a load -/

/-- How often the loader was called for a key. -/
def callCount (c : Cache K V) (key : K) : Nat :=
  c.loaderCalls.countP fun handle => handle.key = key

/-- Call the loader for a task.  The answer is what the load has to do. -/
def callLoader (c : Cache K V) (loader : Loader K V) (task : LoadTask K V) :
    LoadProgram V × Cache K V :=
  let handle := task.handle
  let context := task.context loader
  (loader.programFor task (c.callCount handle.key),
    { c with loaderCalls := handle :: c.loaderCalls }.note
      (.loaderCalled handle.key context.forced context.attributes))

/-- Do the work of a blocking job.  The answer is the task, with its attributes as the
job has left them, and the outcome. -/
def doWork (c : Cache K V) (task : LoadTask K V) :
    Work V → (LoadTask K V × LoadOutcome V) × Cache K V
  | .find outcome => ((task, outcome), c)
  | .callLoader =>
      match c.loader with
      | none => ((task, .nothing), c)
      | some loader =>
          let (program, c) := c.callLoader loader task
          let (attributes, outcome) := program.runThrough task.attributes
          (({ task with attributes := attributes }, outcome), c)

section

variable [KeyText K]

/-- The error of a load that failed. -/
def loadError (c : Cache K V) (handle : LoadHandle K) (shown : String) : CacheError :=
  ((CacheError.loader ⟨.message shown, handle.id⟩).withContext "cache" c.name).withContext
    "key" (KeyText.text handle.key)

/-- End a load. -/
def finish (c : Cache K V) (task : LoadTask K V) (answer : Answer K V) : Cache K V :=
  { c with desk := c.desk.finish task.handle answer }

/-- The metrics after one more measured load. -/
def countLoad (m : Metrics) : Metrics := { m with loadDurations := m.loadDurations + 1 }

/-- The metrics after one more load that failed. -/
def countFailure (m : Metrics) : Metrics := { countLoad m with loadFailure := m.loadFailure + 1 }

/-- End a load by its outcome.  A panic takes the task down, which counts as
cancelled. -/
def settle (c : Cache K V) (task : LoadTask K V) : LoadOutcome V → Cache K V
  | .value value =>
      let (written, c) := (c.measure countLoad).perform
        (.write c.expiration task.handle.key value task.attributes .loader)
      c.finish task (.ok (some written.new))
  | .nothing => (c.measure countLoad).finish task (.ok none)
  | .error shown =>
      (c.measure countFailure).finish task (.error (c.loadError task.handle shown))
  | .panic _ => c.finish task (.error .cancelled)

/-- Hand the job of a task to the executor, and go on as far as that leads. -/
def submit (c : Cache K V) (task : LoadTask K V) (work : Work V) : Cache K V :=
  match c.desk.submit task work with
  | (.waiting, desk) => { c with desk := desk }
  | (.known outcome, desk) => { c with desk := desk }.settle task outcome
  | (.runNow, desk) =>
      let ((task, outcome), c) := { c with desk := desk }.doWork task work
      c.settle task (LoadDesk.jobOutcome outcome)

/-- Run the program of a task up to its next stop. -/
def proceed (c : Cache K V) (task : LoadTask K V) (program : LoadProgram V) : Cache K V :=
  let (attributes, stop) := program.run task.attributes
  let task := { task with attributes := attributes }
  match stop with
  | .finished outcome => c.settle task outcome
  | .atGate rest => { c with desk := c.desk.setTask { task with phase := .atGate rest } }
  | .offloaded outcome => c.submit task (.find outcome)

/-- Poll the task of a load. -/
def pollTask (c : Cache K V) (id : Nat) : Cache K V :=
  match c.desk.poll? id with
  | none => c
  | some (.aborted task) => c.finish task (.error .cancelled)
  | some (.begin task (some program)) => c.proceed task program
  | some (.begin task none) =>
      match c.loader with
      | none => c.settle task .nothing
      | some loader =>
          if loader.blocking then c.submit task .callLoader
          else
            let (program, c) := c.callLoader loader task
            c.proceed task program
  | some (.resume task rest) => (c.note (.loadResumed task.handle.key)).proceed task rest
  | some (.settle task outcome) => c.settle task outcome

/-- Run the job of a load, unless the load was cancelled. -/
def runJob (c : Cache K V) (id : Nat) : Cache K V :=
  match c.desk.job? id with
  | none => c
  | some (task, work) =>
      let ((task, outcome), c) := c.doWork task work
      { c with desk := c.desk.answerJob task outcome }

/-- Whoever has the ticket runs. -/
def runTicket (c : Cache K V) : Ticket → Cache K V
  | .task id => c.pollTask id
  | .job id => c.runJob id

/-- Run the first `count` tickets of the queue. -/
def runQueue : (count : Nat) → Cache K V → Cache K V
  | 0, c => c
  | count + 1, c =>
      match c.desk.executor.next? with
      | none => c
      | some (ticket, executor) =>
          runQueue count ({ c with desk := { c.desk with executor := executor } }.runTicket ticket)

/-- Run the queue until it is empty. -/
def runIdle (c : Cache K V) : Cache K V := c.runQueue c.desk.workLeft

/-- Let the loads that wait at the gate of `key` pass. -/
def openGate (c : Cache K V) (key : K) : Cache K V := { c with desk := c.desk.openGate key }

/-- The executor drops the task of a load. -/
def abandon (c : Cache K V) (id : Nat) : Cache K V := { c with desk := c.desk.abandon id .error }

/-- The executor treats what it is given another way from now on. -/
def treat (c : Cache K V) (spawning blocking : Admission) : Cache K V :=
  { c with desk := { c.desk with executor := c.desk.executor.treat spawning blocking } }

/-! ## Asking for a load -/

/-- Join the pending load of a key, or start one. -/
def requestLoad (c : Cache K V) (key : K) (attributes : Attributes) (forced : Bool) :
    Future K V × Cache K V :=
  match c.loader with
  | none => (.ready (.error (.noLoader c.name)), c)
  | some _ =>
      match c.desk.request key attributes forced none .error with
      | ((.refused e, _), desk) => (.ready (.error e), { c with desk := desk })
      | ((.joined handle, _), desk) => (.load handle, { c with desk := desk })
      | ((.started handle, .later), desk) => (.load handle, { c with desk := desk })
      | ((.started handle, .now), desk) =>
          (.load handle, { c with desk := desk }.pollTask handle.id)

/-- A request without a loader comes to nothing.  Any other goes to the desk, and where the executor
runs tasks at once, that of the new load is polled. -/
theorem requestLoad_cases (c : Cache K V) (key : K) (attributes : Attributes) (forced : Bool) :
    let asked : Cache K V :=
      { c with desk := (c.desk.request key attributes forced none .error).2 }
    (c.requestLoad key attributes forced).2 = c ∨
      (c.requestLoad key attributes forced).2 = asked ∨
      ∃ id, (c.requestLoad key attributes forced).2 = asked.pollTask id := by
  intro asked
  unfold requestLoad
  split
  · exact .inl rfl
  · refine .inr ?_
    simp only [asked]
    generalize c.desk.request key attributes forced none .error = request
    obtain ⟨⟨attachment, launch⟩, desk⟩ := request
    cases attachment with
    | joined handle => exact .inl rfl
    | refused e => exact .inl rfl
    | started handle =>
        cases launch with
        | later => exact .inl rfl
        | now => exact .inr ⟨handle.id, rfl⟩

end

end Cache

end BoundedCache
