import BoundedCache.Proofs.Cache.Lingering
import BoundedCache.Proofs.Load.Calling

/-!
# One turn of a load

A task or a job that has its turn goes on from where its load stands.  It may be that the
loader is called, and then this is written down; nothing else happens to the cache on the way
(`Goes`).  In the end the task waits for another turn, or the load, which was pending up to
then, ends by what the task has found.  Two things can come in between: the load was cancelled,
or the executor refuses a job that it needs.

The executor may also drop a task that waits for a job.  The job is run all the same, and may
call the loader, but there is nobody who hears of its outcome (`Strays`).

So every `Turn` is of one of six kinds, whatever the hooks are, since hooks are not called
before the load ends.
-/

namespace BoundedCache

/-- The load whose turn it is. -/
def Ticket.load : Ticket → Nat
  | .task id | .job id => id

/-- There is nothing for the ticket to do. -/
def LoadDesk.Idles {K V ρ : Type} (d : LoadDesk K V ρ) : Ticket → Prop
  | .task id => d.poll? id = none
  | .job id => d.job? id = none

variable {K V : Type} [DecidableEq K]

namespace Cache

variable {c d : Cache K V} {old task : LoadTask K V} {id : Nat}

/-- In its turn a task of a pending load comes from `old` to `task`, and the cache from `c` to
`d`. -/
structure Goes (c : Cache K V) (old : LoadTask K V) (d : Cache K V) (task : LoadTask K V) :
    Prop where
  mem : old ∈ c.desk.tasks
  current : c.desk.coordinator.isCurrent old.handle.key old.handle.id = true
  eq : d = { c with ledger := d.ledger, loaderCalls := d.loaderCalls }
  silent : Ledger.Calls c.hooks.hooks.length c.ledger [] d.ledger
  follows : task.Follows c.loader old
  tries : LoadTask.Tries c.loader old c.loaderCalls d.loaderCalls task
  /-- If the task calls the loader in this turn, it does so after the calls that there were. -/
  fate_eq : task.fate c.loader (c.callCount old.handle.key) =
    old.fate c.loader (c.callCount old.handle.key)

/-- The job of a task that was dropped does its work: it may call the loader, and that is all. -/
structure Strays (c : Cache K V) (orphan : LoadTask K V) (d : Cache K V) : Prop where
  mem : orphan ∈ c.desk.orphans
  eq : d = { c with ledger := d.ledger, loaderCalls := d.loaderCalls }
  silent : Ledger.Calls c.hooks.hooks.length c.ledger [] d.ledger
  calls : d.loaderCalls = c.loaderCalls ∨
    d.loaderCalls = orphan.handle :: c.loaderCalls ∧ orphan.phase.awaitsCall = true

/-- How a turn of a load may go. -/
inductive Turn (c : Cache K V) [KeyText K] (ticket : Ticket) : Cache K V → Prop where
  | idle (hidle : c.desk.Idles ticket) : Turn c ticket c
  | aborted {task : LoadTask K V} (hmem : task ∈ c.desk.tasks)
      (hid : task.handle.id = ticket.load)
      (hcancelled : c.desk.coordinator.isCancelled ticket.load = true) :
      Turn c ticket (c.finish task (.error .cancelled))
  | waits {old task : LoadTask K V} {d : Cache K V} (h : Goes c old d task)
      (hid : old.handle.id = ticket.load) (executor : Executor) :
      Turn c ticket { d with desk := { d.desk.setTask task with executor := executor } }
  | ends {old task : LoadTask K V} {d : Cache K V} {outcome : LoadOutcome V}
      (h : Goes c old d { task with phase := .answered outcome })
      (hid : old.handle.id = ticket.load) : Turn c ticket (d.settle task outcome)
  | refused {old task : LoadTask K V} {d : Cache K V} {phase : Phase V} {shown : String}
      (h : Goes c old d { task with phase := phase }) (hid : old.handle.id = ticket.load)
      (hblocking : c.desk.executor.blocking = .reject ∨ c.desk.executor.blocking = .drop) :
      Turn c ticket (d.settle task (.error shown))
  | late {orphan : LoadTask K V} {d : Cache K V} (h : Strays c orphan d)
      (hid : orphan.handle.id = ticket.load)
      (hlive : c.desk.coordinator.isCancelled ticket.load = false) :
      Turn c ticket { d with desk := d.desk.dropOrphan orphan.handle.id }

namespace Strays

variable {orphan : LoadTask K V}

omit [DecidableEq K] in
theorem desk_eq (h : Strays c orphan d) : d.desk = c.desk := by rw [h.eq]

omit [DecidableEq K] in
theorem loader_eq (h : Strays c orphan d) : d.loader = c.loader := by rw [h.eq]

/-- No load ends, and no hook has a call. -/
theorem settles (h : Strays c orphan d) (id : Nat) :
    Settles c [] { d with desk := d.desk.dropOrphan id } := by
  have hsilent := h.silent
  rw [h.eq] at hsilent ⊢
  exact Lingers.settles ⟨LoadDesk.winds_withOrphans _ _,
    LoadDesk.pursues_of_subset (List.Subset.refl _), rfl, rfl, rfl⟩ rfl hsilent

theorem doWork {work : Work V} (hmem : orphan ∈ c.desk.orphans)
    (hphase : orphan.phase = .onJob work) : Strays c orphan (c.doWork orphan work).2 := by
  cases work with
  | find outcome => exact ⟨hmem, rfl, .refl _, .inl rfl⟩
  | callLoader =>
      cases hloader : c.loader with
      | none =>
          rw [Cache.doWork, hloader]
          exact ⟨hmem, rfl, .refl _, .inl rfl⟩
      | some loader =>
          rw [Cache.doWork, hloader]
          refine ⟨hmem, rfl, Ledger.calls_note _ _ rfl, .inr ⟨rfl, ?_⟩⟩
          rw [hphase]
          rfl

end Strays

namespace Goes

theorem desk_eq (h : Goes c old d task) : d.desk = c.desk := by rw [h.eq]

theorem loader_eq (h : Goes c old d task) : d.loader = c.loader := by rw [h.eq]

/-- Nothing was merged on the way, and no hook had a call. -/
theorem settles (h : Goes c old d task) : Settles c [] d := by
  have hsilent := h.silent
  rw [h.eq] at hsilent ⊢
  exact Lingers.settles ⟨.refl _, .refl _ _, rfl, rfl, rfl⟩ rfl hsilent

theorem foresees (h : Goes c old d task) : d.desk.Foresees d.loader task := by
  rw [h.desk_eq, h.loader_eq]
  exact h.follows.foresees h.mem

theorem handle_mem (h : Goes c old d task) : task.handle ∈ d.desk.tasks.map (·.handle) :=
  h.foresees.handle_mem

/-- The load goes on to be pending. -/
theorem isCurrent (h : Goes c old d task) :
    d.desk.coordinator.isCurrent task.handle.key task.handle.id = true := by
  rw [h.desk_eq, h.follows.handle_eq]
  exact h.current

/-- At first the task stands where it stood. -/
theorem stand (hmem : task ∈ c.desk.tasks)
    (hcurrent : c.desk.coordinator.isCurrent task.handle.key task.handle.id = true) :
    Goes c task c task :=
  ⟨hmem, hcurrent, rfl, .refl _, .refl _ _, .quiet rfl rfl, rfl⟩

/-- The task takes another form, and stays what it is. -/
theorem next {later : LoadTask K V} (h : Goes c old d task) (hhandle : later.handle = task.handle)
    (hfate : ∀ count, later.fate c.loader count = task.fate c.loader count)
    (hawaits : later.phase.awaitsCall = task.phase.awaitsCall) : Goes c old d later where
  mem := h.mem
  current := h.current
  eq := h.eq
  silent := h.silent
  follows := (LoadTask.follows_of_fate_eq hhandle hfate).trans h.follows
  tries := by
    cases h.tries with
    | quiet hcalls hsame => exact .quiet hcalls (hawaits.trans hsame)
    | called hcalls hbefore hafter => exact .called hcalls hbefore (hawaits.trans hafter)
    | spared hcalls hnone => exact .spared hcalls hnone
  fate_eq := (hfate _).trans h.fate_eq

theorem noted (h : Goes c old d task) {n : Note K V} (htold : Note.told? n = none) :
    Goes c old (d.note n) task where
  mem := h.mem
  current := h.current
  eq := by
    rw [h.eq]
    rfl
  silent := h.silent.trans (Ledger.calls_note _ _ htold)
  follows := h.follows
  tries := h.tries
  fate_eq := h.fate_eq

/-- Called now, the loader gives the task the program that it was heading for. -/
theorem fate_callLoader {loader : Loader K V} (hloader : d.loader = some loader)
    (hawaits : task.phase.awaitsCall = true) (count : Nat) :
    { task with phase := .ready (d.callLoader loader task).1 }.fate d.loader count =
      task.fate d.loader (d.callCount task.handle.key) := by
  rw [hloader]
  obtain ⟨handle, forced, attributes, phase⟩ := task
  rcases phase with (_ | program) | program | program | (_ | outcome) | outcome
  case fresh.none | onJob.callLoader => rfl
  all_goals exact nomatch hawaits

/-- The loader is called for a task that has yet to do so. -/
theorem call {loader : Loader K V} (h : Goes c old d task) (hloader : c.loader = some loader)
    (hawaits : task.phase.awaitsCall = true) :
    Goes c old (d.callLoader loader task).2
      { task with phase := .ready (d.callLoader loader task).1 } where
  mem := h.mem
  current := h.current
  eq := by
    rw [h.eq]
    rfl
  silent := h.silent.trans (Ledger.calls_note _ _ rfl)
  follows := by
    have hready : LoadTask.Follows c.loader
        { task with phase := .ready (d.callLoader loader task).1 } task := by
      refine ⟨rfl, fun count => ⟨d.callCount task.handle.key, ?_⟩⟩
      rw [← h.loader_eq] at hloader ⊢
      exact fate_callLoader hloader hawaits count
    exact hready.trans h.follows
  tries := by
    have hhandle := h.follows.handle_eq
    cases h.tries with
    | quiet hcalls hsame =>
        refine .called ?_ (hsame.symm.trans hawaits) rfl
        rw [← hhandle, ← hcalls]
        rfl
    | called hcalls hbefore hafter => exact absurd (hawaits.symm.trans hafter) nofun
    | spared hcalls hnone => exact absurd (hloader.symm.trans hnone) nofun
  fate_eq := by
    -- a task that awaits its call has not made it on the way, so the calls are those of before
    have hcalls : d.callCount task.handle.key = c.callCount old.handle.key := by
      cases h.tries with
      | quiet hcalls hsame => rw [callCount, hcalls, h.follows.handle_eq, callCount]
      | called hcalls hbefore hafter => exact absurd (hawaits.symm.trans hafter) nofun
      | spared hcalls hnone => exact absurd (hloader.symm.trans hnone) nofun
    rw [← h.fate_eq, ← hcalls, ← h.loader_eq]
    exact fate_callLoader (h.loader_eq.trans hloader) hawaits _

/-- The work of a job answers its task. -/
theorem doWork {work : Work V} (h : Goes c old d { task with phase := .onJob work }) :
    let done := d.doWork task work
    Goes c old done.2
      { done.1.1 with phase := .answered (LoadDesk.jobOutcome done.1.2) } := by
  cases work with
  | find outcome =>
      exact h.next rfl (fun _ => LoadDesk.found?_jobOutcome task.attributes outcome) rfl
  | callLoader =>
      cases hloader : c.loader with
      | none =>
          have hwork : d.doWork task .callLoader = ((task, .nothing), d) := by
            rw [Cache.doWork, h.loader_eq, hloader]
          rw [hwork]
          have hnothing : LoadTask.Follows c.loader { task with phase := .answered .nothing }
              { task with phase := .onJob .callLoader } := by
            refine LoadTask.follows_of_fate_eq rfl fun count => ?_
            rw [hloader]
            rfl
          refine ⟨h.mem, h.current, h.eq, h.silent, hnothing.trans h.follows, ?_, ?_⟩
          · cases h.tries with
            | quiet hcalls hsame => exact .spared hcalls hloader
            | called hcalls hbefore hafter => exact nomatch hafter
            | spared hcalls hnone => exact .spared hcalls hloader
          · rw [← h.fate_eq, hloader]
            rfl
      | some loader =>
          have hcalled := h.call hloader rfl
          generalize hprogram : (d.callLoader loader task).1 = program
          have hwork : d.doWork task .callLoader =
              (({ task with attributes := (program.runThrough task.attributes).1 },
                (program.runThrough task.attributes).2), (d.callLoader loader task).2) := by
            rw [Cache.doWork, h.loader_eq, hloader, ← hprogram]
          have hsame : (d.callLoader loader { task with phase := .onJob .callLoader }).1 =
              program := hprogram
          rw [hsame] at hcalled
          rw [hwork]
          exact hcalled.next rfl (fun _ => LoadDesk.found?_jobOutcome _ _) rfl

variable [KeyText K] {ticket : Ticket}

theorem turn_submit {work : Work V} (h : Goes c old d { task with phase := .onJob work })
    (hid : old.handle.id = ticket.load) : Turn c ticket (d.submit task work) := by
  have hexecutor : d.desk.executor.blocking = c.desk.executor.blocking := by rw [h.desk_eq]
  unfold submit LoadDesk.submit
  cases hblocking : d.desk.executor.blocking with
  | queue => exact .waits h hid _
  | inline => exact .ends h.doWork hid
  | reject => exact .refused h hid (.inl (hexecutor.symm.trans hblocking))
  | drop => exact .refused h hid (.inr (hexecutor.symm.trans hblocking))

/-- A task goes on with its program up to the next stop. -/
theorem turn_proceed {program : LoadProgram V}
    (h : Goes c old d { task with phase := .ready program })
    (hid : old.handle.id = ticket.load) : Turn c ticket (d.proceed task program) := by
  unfold proceed
  rcases hrun : program.run task.attributes with ⟨attributes, stop⟩
  cases stop with
  | finished outcome =>
      have hends : Goes c old d
          { task with attributes := attributes, phase := .answered outcome } :=
        h.next rfl (fun _ => (LoadProgram.fate_of_finished hrun).symm) rfl
      exact .ends hends hid
  | atGate rest =>
      let later : LoadTask K V := { task with attributes := attributes, phase := .atGate rest }
      have hwaits : Goes c old d later :=
        h.next rfl (fun _ => (LoadProgram.fate_of_atGate hrun).symm) rfl
      exact .waits hwaits hid d.desk.executor
  | offloaded outcome =>
      have hjob : Goes c old d
          { task with attributes := attributes, phase := .onJob (.find outcome) } :=
        h.next rfl (fun _ => (LoadProgram.fate_of_offloaded hrun).symm) rfl
      exact hjob.turn_submit hid

end Goes

/-! ## The end of a load -/

variable [KeyText K]

/-- A load that ends without a value does nothing but end. -/
theorem settles_settle_of_none {outcome : LoadOutcome V}
    (hnone : outcome.found? task.attributes = none) : Settles c [] (c.settle task outcome) := by
  have hends : ∀ (change : Metrics → Metrics) (answer : Answer K V),
      Settles c [] ((c.measure change).finish task answer) := by
    intro change answer
    have hfinish := (c.measure change).frozen_finish task answer
    exact Lingers.settles ⟨hfinish.winds, hfinish.pursues, rfl, rfl, rfl⟩ rfl
      (.none rfl rfl rfl rfl)
  cases outcome with
  | value value => exact nomatch hnone
  | nothing => exact hends countLoad _
  | error shown => exact hends countFailure _
  | panic shown => exact (c.frozen_finish task _).settles

/-! ## Turns -/

theorem turn_pollTask (h : c.desk.Engaged) (id : Nat) : Turn c (.task id) (c.pollTask id) := by
  -- a task that is polled stands where it stood
  have hstands : ∀ {poll : Poll K V} {phase : Phase V}, c.desk.poll? id = some poll →
      poll.phase? = some phase → Goes c poll.task c { poll.task with phase := phase } := by
    intro poll phase hpoll hphase
    have hcurrent := h.current_of_poll? hpoll (by rw [hphase]; exact nofun)
    rw [← LoadDesk.phase_of_poll? hpoll hphase]
    exact Goes.stand (LoadDesk.mem_of_poll? hpoll).1 hcurrent
  unfold pollTask
  split
  · rename_i hpoll
    exact .idle hpoll
  · rename_i task hpoll
    obtain ⟨hmem, hid⟩ := LoadDesk.mem_of_poll? hpoll
    exact .aborted hmem hid (LoadDesk.isCancelled_of_poll? hpoll)
  · rename_i task program hpoll
    have hready : Goes c task c { task with phase := .ready program } :=
      (hstands hpoll rfl).next rfl (fun _ => rfl) rfl
    exact hready.turn_proceed (LoadDesk.mem_of_poll? hpoll).2
  · rename_i task hpoll
    have hfresh := hstands hpoll rfl
    have hid := (LoadDesk.mem_of_poll? hpoll).2
    have hjob : Goes c task c { task with phase := .onJob .callLoader } :=
      hfresh.next rfl (fun _ => rfl) rfl
    split
    · rename_i hnone
      have hdone := hjob.doWork
      have hwork : c.doWork task .callLoader = ((task, .nothing), c) := by rw [doWork, hnone]
      rw [hwork] at hdone
      exact .ends hdone hid
    · rename_i loader hloader
      split
      · exact hjob.turn_submit hid
      · exact (hfresh.call hloader rfl).turn_proceed hid
  · rename_i task rest hpoll
    exact ((hstands hpoll rfl).noted rfl).turn_proceed (LoadDesk.mem_of_poll? hpoll).2
  · rename_i hpoll
    exact .ends (hstands hpoll rfl) (LoadDesk.mem_of_poll? hpoll).2

theorem turn_runJob (h : c.desk.Engaged) (id : Nat) : Turn c (.job id) (c.runJob id) := by
  unfold runJob
  split
  · rename_i hjob
    exact .idle hjob
  · rename_i task work hjob
    obtain ⟨hlive, hphase, hid, hplace⟩ := LoadDesk.job?_cases hjob
    obtain ⟨hdesk, hhandle⟩ := c.doWork_desk task work
    have hload : task.handle.id = (Ticket.job id).load := hid
    dsimp only
    rcases hplace with htask | ⟨hnone, horphan⟩
    · have hstands : Goes c task c { task with phase := .onJob work } := by
        rw [← hphase]
        exact Goes.stand (LoadDesk.mem_of_task? htask).1 (h.current_of_job? htask hlive)
      rw [← hid, ← hhandle, ← hdesk] at htask
      rw [LoadDesk.answerJob_of_task? htask, LoadDesk.wake_eq]
      exact .waits hstands.doWork hload _
    · rw [← hid, ← hhandle, ← hdesk] at hnone
      rw [LoadDesk.answerJob_of_dropped hnone, hhandle]
      exact .late (Strays.doWork horphan hphase) hload hlive

/-- Every turn is one of a load that is pending or was cancelled, or there is nothing to do. -/
theorem turn_runTicket (h : c.desk.Engaged) (ticket : Ticket) :
    Turn c ticket (c.runTicket ticket) := by
  cases ticket with
  | task id => exact turn_pollTask h id
  | job id => exact turn_runJob h id

end Cache

end BoundedCache
