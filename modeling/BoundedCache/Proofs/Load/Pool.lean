import BoundedCache.Load.Pool
import BoundedCache.Proofs.Load.Desk

/-!
# No waiter is left alone

A run of a pool is any sequence of requests for loads, turns of tasks in any order with any
answers, refusals, waiters that leave, and cancellations.  After every run each waiter that
still holds a load finds it pending, with a task at work on it, or finds its answer
(`Served`); a load gets one answer, and whoever sees an answer sees that one
(`observations`).  What ends a load is also what answers it: the answer is the one that its task
found, or the error of whatever stopped it (`Settles`).

The invariant is that the desk works for the handles that the waiters hold.
-/

namespace BoundedCache.LoadPool

variable {K V : Type} {p : LoadPool K V} {id : Nat}

/-- The handles that are still held. -/
def handles (p : LoadPool K V) : List (LoadHandle K) := p.waiters.filterMap (·.hold)

theorem handles_issue (p : LoadPool K V) (handle : LoadHandle K) (started : Bool) :
    (p.issue handle started).2.handles.Perm (handle :: p.handles) := by
  unfold handles issue
  rw [List.filterMap_append]
  exact List.perm_append_singleton handle _

variable [DecidableEq K]

/-- The desk works for whoever holds a handle. -/
def Sound (p : LoadPool K V) : Prop := p.desk.Works (.error .cancelled) p.handles p.started

/-! ## Turns of a task -/

theorem turns_proceed (p : LoadPool K V) {task : LoadTask K V} (htask : p.desk.task? id = some task)
    (program : LoadProgram V) :
    ∃ desk, p.proceed task program = { p with desk := desk } ∧ p.desk.Turns id desk := by
  unfold proceed
  split
  · exact ⟨_, rfl, .ends htask _ p.desk.orphans⟩
  · exact ⟨_, rfl, .ends htask _ p.desk.orphans⟩
  · exact ⟨_, rfl, .waits htask _⟩

theorem turns_pollTask (p : LoadPool K V) (id : Nat) :
    ∃ desk, p.pollTask id = { p with desk := desk } ∧ p.desk.Turns id desk := by
  unfold pollTask LoadDesk.poll?
  cases htask : p.desk.task? id with
  | none => exact ⟨_, rfl, .idle⟩
  | some task =>
      dsimp only
      cases p.desk.coordinator.isCancelled id with
      | true => exact ⟨_, rfl, .ends htask _ p.desk.orphans⟩
      | false =>
          cases task.phase with
          | fresh program => exact p.turns_proceed htask _
          | atGate rest => exact ⟨_, rfl, .idle⟩
          | ready rest => exact p.turns_proceed htask _
          | onJob work => exact ⟨_, rfl, .idle⟩
          | answered outcome => exact ⟨_, rfl, .ends htask _ p.desk.orphans⟩

theorem turns_settle (p : LoadPool K V) (id : Nat) (answer : Answer K V) :
    ∃ desk, p.settle id answer = { p with desk := desk } ∧ p.desk.Turns id desk := by
  unfold settle
  cases htask : p.desk.task? id with
  | none => exact ⟨_, rfl, .idle⟩
  | some task => exact ⟨_, rfl, .ends htask _ p.desk.orphans⟩

/-- Running the queue is a matter of the desk. -/
theorem progresses_runQueue (count : Nat) (p : LoadPool K V) :
    ∃ desk, p.runQueue count = { p with desk := desk } ∧ p.desk.Progresses desk := by
  induction count generalizing p with
  | zero => exact ⟨_, rfl, .refl _⟩
  | succ count ih =>
      unfold runQueue
      split
      · exact ⟨_, rfl, .refl _⟩
      · rename_i ticket executor _
        have hnext := p.desk.progresses_inExecutor executor
        cases ticket with
        | task id =>
            obtain ⟨desk, hpoll, hturn⟩ :=
              turns_pollTask { p with desk := { p.desk with executor := executor } } id
            dsimp only
            rw [hpoll]
            obtain ⟨desk', hrun, hrest⟩ := ih { p with desk := desk }
            exact ⟨desk', hrun, (hnext.trans hturn.progresses).trans hrest⟩
        | job id =>
            obtain ⟨desk', hrun, hrest⟩ :=
              ih { p with desk := { p.desk with executor := executor } }
            exact ⟨desk', hrun, hnext.trans hrest⟩

/-! ## Requests -/

/-- What a request may do to a pool.  A waiter that leaves does so because it is dropped, or
because it has seen its answer. -/
inductive Effect (p : LoadPool K V) : Request K V → LoadPool K V → Prop where
  | progress {request : Request K V} {desk : LoadDesk K V (Answer K V)}
      (hprogress : p.desk.Progresses desk) : Effect p request { p with desk := desk }
  | joined {key : K} {load : PendingLoad} (program : LoadProgram V)
      (hload : p.desk.coordinator.pending? key = some load) :
      Effect p (.load key program) (issue { p with desk := { p.desk with
        coordinator := p.desk.coordinator.recount key (· + 1) } } ⟨key, load.id⟩ false).2
  | started {key : K} {launch : LoadDesk.Launch} {desk desk' : LoadDesk K V (Answer K V)}
      (program : LoadProgram V)
      (hfree : p.desk.coordinator.pending? key = none)
      (hup : p.desk.coordinator.lifecycle.isDown = false)
      (hbegins : p.desk.Begins (p.desk.newTask key {} false (some program)) .error launch desk)
      (hturn : desk.Turns p.desk.coordinator.nextId desk') :
      Effect p (.load key program)
        (issue { p with desk := desk' } ⟨key, p.desk.coordinator.nextId⟩ true).2
  | left {request : Request K V} {waiter : Nat} {handle : LoadHandle K}
      (hhold : p.hold? waiter = some handle) (answer : Option (Answer K V))
      (hcause : request = .drop waiter ∨
        request = .poll waiter ∧ (p.desk.coordinator.answer? handle.id).isSome = true) :
      Effect p request (p.depart waiter handle answer)
  | cancelled : Effect p .cancelAll { p with desk := p.desk.cancelAll (.error .cancelled) }

theorem effect_refl (p : LoadPool K V) (request : Request K V) : p.Effect request p :=
  .progress (LoadDesk.Progresses.refl p.desk)

theorem step_poll {waiter : Nat} {handle : LoadHandle K} {answer : Answer K V}
    (hhold : p.hold? waiter = some handle)
    (hanswer : p.desk.coordinator.answer? handle.id = some answer) :
    p.step (.poll waiter) = (.ready answer, p.depart waiter handle (some answer)) := by
  simp only [step, hhold, hanswer]

theorem step_drop {waiter : Nat} {handle : LoadHandle K} (hhold : p.hold? waiter = some handle) :
    p.step (.drop waiter) = (.done, p.depart waiter handle none) := by
  simp only [step, hhold]

/-- A waiter that is polled leaves with the answer, if there is one. -/
theorem step_poll_cases (p : LoadPool K V) (waiter : Nat) :
    (p.step (.poll waiter)).2 = p ∨ ∃ handle answer, p.hold? waiter = some handle ∧
      p.desk.coordinator.answer? handle.id = some answer ∧
      (p.step (.poll waiter)).2 = p.depart waiter handle (some answer) := by
  cases hhold : p.hold? waiter with
  | none => exact .inl (by simp only [step, hhold])
  | some handle =>
      cases hanswer : p.desk.coordinator.answer? handle.id with
      | none => exact .inl (by simp only [step, hhold, hanswer])
      | some answer => exact .inr ⟨handle, answer, rfl, hanswer, by rw [step_poll hhold hanswer]⟩

theorem step_drop_cases (p : LoadPool K V) (waiter : Nat) :
    (p.step (.drop waiter)).2 = p ∨ ∃ handle, p.hold? waiter = some handle ∧
      (p.step (.drop waiter)).2 = p.depart waiter handle none := by
  cases hhold : p.hold? waiter with
  | none => exact .inl (by simp only [step, hhold])
  | some handle => exact .inr ⟨handle, rfl, by rw [step_drop hhold]⟩

theorem exists_state_start (p : LoadPool K V) :
    ∃ state, (p.step .start).2 = p.setLifecycle state := by
  have hstart : (p.step .start).2 =
      (Lifecycle.lazyStart lifecycle setLifecycle true (fun p => (.ok (), p)) p).2 := by
    unfold step
    generalize Lifecycle.lazyStart lifecycle setLifecycle true (fun p => (.ok (), p)) p = result
    obtain ⟨running | error, p'⟩ := result <;> rfl
  rw [hstart, Lifecycle.lazyStart]
  by_cases hready : lifecycle p = .ready
  · rw [if_pos hready]
    exact ⟨_, rfl⟩
  · rw [if_neg hready]
    exact ⟨p.lifecycle, rfl⟩

theorem effect_step (p : LoadPool K V) (request : Request K V) :
    p.Effect request (p.step request).2 := by
  cases request with
  | start =>
      obtain ⟨state, heq⟩ := p.exists_state_start
      rw [heq]
      exact .progress (p.desk.progresses_inState state)
  | load key program =>
      show p.Effect (.load key program) (p.load key program).2
      unfold load
      rcases p.desk.request_cases key {} false (some program) .error with
        ⟨load, hload, heq⟩ | ⟨-, -, heq⟩ | ⟨hfree, hup, launch, desk, hbegins, heq⟩
      · rw [heq]
        exact .joined program hload
      · rw [heq]
        exact p.effect_refl _
      · rw [heq]
        cases launch with
        | later => exact .started program hfree hup hbegins .idle
        | now =>
            obtain ⟨desk', hpoll, hturn⟩ :=
              turns_pollTask { p with desk := desk } p.desk.coordinator.nextId
            dsimp only
            rw [hpoll]
            exact .started program hfree hup hbegins hturn
  | poll waiter =>
      rcases p.step_poll_cases waiter with heq | ⟨handle, answer, hhold, hanswer, heq⟩
      · rw [heq]
        exact p.effect_refl _
      · rw [heq]
        exact .left hhold _ (.inr ⟨rfl, by rw [hanswer]; rfl⟩)
  | drop waiter =>
      rcases p.step_drop_cases waiter with heq | ⟨handle, hhold, heq⟩
      · rw [heq]
        exact p.effect_refl _
      · rw [heq]
        exact .left hhold none (.inl rfl)
  | openGate key => exact .progress (p.desk.progresses_openGate key)
  | run count =>
      obtain ⟨desk, heq, hprogress⟩ := p.progresses_runQueue (count.getD p.desk.workLeft)
      rw [step, heq]
      exact .progress hprogress
  | pollTask load =>
      obtain ⟨desk, heq, hturn⟩ := p.turns_pollTask load
      rw [step, heq]
      exact .progress hturn.progresses
  | settle load answer =>
      obtain ⟨desk, heq, hturn⟩ := p.turns_settle load answer
      rw [step, heq]
      exact .progress hturn.progresses
  | abandon load => exact .progress (p.desk.turns_abandon load .error).progresses
  | treat spawning blocking => exact .progress (p.desk.progresses_inExecutor _)
  | cancelAll => exact .cancelled
  | shutDown => exact .progress (p.desk.progresses_inState _)
  | mayDrain =>
      have hdrain := p.desk.coordinator.mayDrain_eq
      rw [step, hdrain]
      exact .progress (p.desk.progresses_inState _)

/-! ## Handles -/

theorem handles_depart {waiter : Nat} {handle : LoadHandle K}
    (hhold : p.hold? waiter = some handle) (answer : Option (Answer K V)) :
    p.handles.Perm (handle :: (p.depart waiter handle answer).handles) := by
  obtain ⟨held, hheld, hhandle⟩ := Option.bind_eq_some_iff.mp hhold
  have hperm := perm_filterMap_set (f := (·.hold))
    (y := ({ hold := none, answer := answer } : PoolWaiter K V)) hheld rfl
  rw [hhandle] at hperm
  exact hperm

theorem mem_handles {waiter : Nat} {handle : LoadHandle K} (hhold : p.hold? waiter = some handle) :
    handle ∈ p.handles :=
  (handles_depart hhold none).mem_iff.mpr List.mem_cons_self

/-! ## Steps and runs -/

theorem sound_new (executor : Executor) :
    Sound ({ desk := { executor := executor } } : LoadPool K V) := .new executor _

theorem Sound.effect (h : p.Sound) {request : Request K V} {p' : LoadPool K V}
    (heffect : p.Effect request p') : p'.Sound := by
  cases heffect with
  | progress hprogress => exact hprogress.works h
  | joined program hload => exact (LoadDesk.Works.join h hload).perm (handles_issue p _ false).symm
  | started program hfree hup hbegins hturn =>
      exact (hturn.progresses.works (hbegins.works hfree rfl h)).perm (handles_issue p _ true).symm
  | left hhold answer hcause => exact (LoadDesk.Works.perm h (handles_depart hhold answer)).detach
  | cancelled => exact LoadDesk.Works.cancelAll h

theorem Sound.step (h : p.Sound) (request : Request K V) : (p.step request).2.Sound :=
  h.effect (p.effect_step request)

theorem Sound.run (h : p.Sound) (requests : List (Request K V)) : (p.run requests).Sound := by
  induction requests generalizing p with
  | nil => exact h
  | cons request requests ih => exact ih (h.step request)

theorem answers_effect {request : Request K V} {p' : LoadPool K V} (heffect : p.Effect request p') :
    p.desk.coordinator.answers <:+ p'.desk.coordinator.answers := by
  cases heffect with
  | progress hprogress => exact hprogress.answers
  | joined program hload => exact List.suffix_rfl
  | started program hfree hup hbegins hturn => exact hbegins.answers.trans hturn.progresses.answers
  | left hhold answer hcause =>
      rw [depart, LoadDesk.detach_eq]
      exact (Coordinator.proceeds_detach _ _ _).answers
  | cancelled =>
      rw [LoadDesk.cancelAll_eq]
      exact (Coordinator.proceeds_cancelAll _ _).answers

theorem answers_run (p : LoadPool K V) (requests : List (Request K V)) :
    p.desk.coordinator.answers <:+ (p.run requests).desk.coordinator.answers := by
  induction requests generalizing p with
  | nil => exact List.suffix_rfl
  | cons request requests ih => exact (answers_effect (p.effect_step request)).trans (ih _)

/-- An answer never changes. -/
theorem Sound.answer?_run (h : p.Sound) (requests : List (Request K V)) {answer : Answer K V}
    (hanswer : p.desk.coordinator.answer? id = some answer) :
    (p.run requests).desk.coordinator.answer? id = some answer := by
  have hnodup := (h.run requests).serves.answers_nodup
  have hmem := (Enumerates.lookup h.serves.answers_nodup).mem_iff id answer
  refine ((Enumerates.lookup hnodup).mem_iff id answer).mp ?_
  exact (p.answers_run requests).subset (hmem.mpr hanswer)

/-! ## What waiters get -/

/-- Every waiter is served: the load that it holds is pending under its key and number, with
a task at work on it, or the answer is there to be had.  A load has one answer at most, and
when that can be had, the load is pending no more. -/
structure Served (p : LoadPool K V) : Prop where
  held : ∀ waiter handle, p.hold? waiter = some handle →
    (p.desk.coordinator.isCurrent handle.key handle.id = true ∧
        ∃ task, p.desk.task? handle.id = some task ∧ task.handle = handle) ∨
      ∃ answer, (p.step (.poll waiter)).1 = .ready answer
  answers_nodup : (p.desk.coordinator.answers.map Prod.fst).Nodup
  gone : ∀ id, (p.desk.coordinator.answer? id).isSome = true →
    ∀ key, p.desk.coordinator.isCurrent key id = false

/-- The answer that a request shows to a waiter, with the handle that the waiter held. -/
def observed? (p : LoadPool K V) : Request K V → Option (LoadHandle K × Answer K V)
  | .poll waiter =>
      match p.hold? waiter, (p.step (.poll waiter)).1 with
      | some handle, .ready answer => some (handle, answer)
      | _, _ => none
  | _ => none

/-- The answers that waiters see in a run. -/
def observations (p : LoadPool K V) : List (Request K V) → List (LoadHandle K × Answer K V)
  | [] => []
  | request :: requests =>
      (p.observed? request).toList ++ (p.step request).2.observations requests

theorem answer?_of_observed {request : Request K V} {seen : LoadHandle K × Answer K V}
    (hseen : p.observed? request = some seen) :
    p.desk.coordinator.answer? seen.1.id = some seen.2 := by
  cases request with
  | poll waiter =>
      unfold observed? at hseen
      cases hhold : p.hold? waiter with
      | none => simp [hhold] at hseen
      | some handle =>
          cases hanswer : p.desk.coordinator.answer? handle.id with
          | none => simp [hhold, step, hanswer] at hseen
          | some answer =>
              simp only [hhold, step_poll hhold hanswer, Option.some_inj] at hseen
              rw [← hseen]
              exact hanswer
  | _ => exact nomatch hseen

theorem Sound.served (h : p.Sound) : p.Served where
  held waiter handle hhold := by
    rcases h.serves.held handle (mem_handles hhold) with hcurrent | hanswer
    · obtain ⟨task, hmem, hhandle⟩ := h.staffed _ _ hcurrent
      refine .inl ⟨hcurrent, task, ?_, hhandle⟩
      rw [← LoadDesk.Works.task?_eq h hmem, hhandle]
    · obtain ⟨answer, hanswer⟩ := Option.isSome_iff_exists.mp hanswer
      exact .inr ⟨answer, by rw [step_poll hhold hanswer]⟩
  answers_nodup := h.serves.answers_nodup
  gone _ hanswer := h.serves.isCurrent_of_answered hanswer

theorem Sound.observed (h : p.Sound) (requests : List (Request K V)) :
    ∀ seen ∈ p.observations requests,
      (p.run requests).desk.coordinator.answer? seen.1.id = some seen.2 := by
  induction requests generalizing p with
  | nil => exact fun _ hmem => absurd hmem List.not_mem_nil
  | cons request requests ih =>
      intro seen hmem
      rcases List.mem_append.mp hmem with hnow | hlater
      · have hanswer := answer?_of_observed (Option.mem_toList.mp hnow)
        exact h.answer?_run (request :: requests) hanswer
      · exact ih (h.step request) seen hlater

/-! ## What a load is answered with -/

/-- The answer of a load after one more request. -/
def answerAfter? (p : LoadPool K V) (request : Request K V) (id : Nat) : Option (Answer K V) :=
  (p.step request).2.desk.coordinator.answer? id

/-- What a pending load is answered with: a task that ends gives it the answer that it has found, a
task that is dropped and a cancellation give it their errors. -/
structure Settles (p : LoadPool K V) (handle : LoadHandle K) : Prop where
  found : ∀ answer, p.answerAfter? (.settle handle.id answer) handle.id = some answer
  ran : ∀ task program outcome, p.desk.task? handle.id = some task →
    task.phase = .fresh (some program) ∨ task.phase = .ready program →
    (program.run task.attributes).2 = .finished outcome ∨
      (program.run task.attributes).2 = .offloaded outcome →
    p.answerAfter? (.pollTask handle.id) handle.id = some (answerOf handle outcome)
  dropped : ∀ task, p.desk.task? handle.id = some task →
    p.answerAfter? (.abandon handle.id) handle.id = some (.error task.dropError)
  cancelled : p.answerAfter? .cancelAll handle.id = some (.error .cancelled)

theorem proceed_of_end (p : LoadPool K V) (task : LoadTask K V) {program : LoadProgram V}
    {outcome : LoadOutcome V} (hend : (program.run task.attributes).2 = .finished outcome ∨
      (program.run task.attributes).2 = .offloaded outcome) :
    p.proceed task program =
      { p with desk := p.desk.finish task.handle (answerOf task.handle outcome) } := by
  unfold proceed
  rcases hrun : program.run task.attributes with ⟨attributes, stop⟩
  rw [hrun] at hend
  dsimp only at hend
  rcases hend with rfl | rfl <;> rfl

/-- A load that is pending has a task of its own, and what ends the task answers the load. -/
theorem Sound.exists_task (h : p.Sound) {handle : LoadHandle K}
    (hcurrent : p.desk.coordinator.isCurrent handle.key handle.id = true) :
    ∃ task, p.desk.task? handle.id = some task ∧ task.handle = handle ∧
      ∀ answer, (p.desk.finish handle answer).coordinator.answer? handle.id = some answer := by
  obtain ⟨task, hmem, hhandle⟩ := h.staffed _ _ hcurrent
  refine ⟨task, ?_, hhandle, fun answer => Coordinator.answer?_complete hcurrent answer⟩
  rw [← LoadDesk.Works.task?_eq h hmem, hhandle]

theorem Sound.settles (h : p.Sound) {handle : LoadHandle K}
    (hcurrent : p.desk.coordinator.isCurrent handle.key handle.id = true) : p.Settles handle := by
  obtain ⟨load, hload, hid⟩ := Coordinator.isCurrent_iff.mp hcurrent
  obtain ⟨task, htask, hhandle, hfinish⟩ := h.exists_task hcurrent
  have hlive : p.desk.coordinator.isCancelled handle.id = false := by
    rw [← hid]
    exact h.serves.not_isCancelled hload
  refine ⟨fun answer => ?_, fun other program outcome hother hphase hend => ?_,
    fun other hother => ?_, ?_⟩
  · have hsettle : p.settle handle.id answer = { p with desk := p.desk.finish handle answer } := by
      simp [settle, htask, hlive, hhandle]
    rw [answerAfter?, LoadPool.step, hsettle]
    exact hfinish answer
  · obtain rfl : task = other := Option.some.inj (htask.symm.trans hother)
    have hproceed := p.proceed_of_end task hend
    have hpoll : p.pollTask handle.id =
        { p with desk := p.desk.finish handle (answerOf handle outcome) } := by
      rw [hhandle] at hproceed
      rcases hphase with hphase | hphase <;>
        simpa [pollTask, LoadDesk.poll?, htask, hlive, hphase] using hproceed
    rw [answerAfter?, LoadPool.step, hpoll]
    exact hfinish (answerOf handle outcome)
  · obtain rfl : task = other := Option.some.inj (htask.symm.trans hother)
    obtain ⟨orphans, heq⟩ := LoadDesk.abandon_of_task htask (ρ := Answer K V) .error
    rw [answerAfter?, LoadPool.step, heq, hhandle]
    exact hfinish (.error task.dropError)
  · have hmem : (handle.key, load) ∈ p.desk.coordinator.pending :=
      ((Enumerates.lookup h.serves.keys_nodup).mem_iff _ _).mpr hload
    have hcancelled : handle.id ∈
        (p.desk.coordinator.cancelAll (.error .cancelled)).2.cancelled := by
      rw [Coordinator.cancelled_cancelAll, Coordinator.cancelAll_eq]
      exact List.mem_append_left _ (List.mem_reverse.mpr (List.mem_map.mpr ⟨_, hmem, hid⟩))
    rw [answerAfter?, LoadPool.step, LoadDesk.cancelAll_eq]
    exact h.serves.cancelAll.cancelled_answer _ hcancelled

/-- A load whose task is not taken is answered at once, and its waiter is told so. -/
theorem load_of_turnedAway
    (haway : p.desk.executor.admitTask.1 = .reject ∨ p.desk.executor.admitTask.1 = .drop)
    {key : K} (hfree : p.desk.coordinator.pending? key = none)
    (hup : p.desk.coordinator.lifecycle.isDown = false) (program : LoadProgram V) :
    (p.step (.load key program)).1 = .issued p.waiters.length true ∧
      p.answerAfter? (.load key program) p.desk.coordinator.nextId = some (.error .dropped) := by
  obtain ⟨desk, heq, hanswer⟩ := LoadDesk.request_of_turnedAway haway hfree hup {} false
    (some program) (ρ := Answer K V) .error
  simp only [answerAfter?, step, load, heq]
  exact ⟨rfl, hanswer⟩

/-- After every run each waiter is served, answers stay as they are, and all waiters of one
load see the same answer, down to the source of an error.  That answer is what the task of the
load has found, or the error of what kept it from finding one. -/
theorem run_served (executor : Executor) (requests : List (Request K V)) :
    let start : LoadPool K V := { desk := { executor := executor } }
    let p := start.run requests
    p.Served ∧
      (∀ later id answer, p.desk.coordinator.answer? id = some answer →
        (p.run later).desk.coordinator.answer? id = some answer) ∧
      (∀ seen ∈ start.observations requests,
        p.desk.coordinator.answer? seen.1.id = some seen.2 ∧
        ∀ other ∈ start.observations requests, other.1.id = seen.1.id →
          other.2 = seen.2 ∧ ∀ error source, seen.2 = .error error → error.source = some source →
            ∃ shared, other.2 = .error shared ∧ shared.sameSource error = true) ∧
      (∀ handle, p.desk.coordinator.isCurrent handle.key handle.id = true → p.Settles handle) ∧
      ∀ key program, p.desk.coordinator.pending? key = none →
        p.desk.coordinator.lifecycle.isDown = false →
        p.desk.executor.admitTask.1 = .reject ∨ p.desk.executor.admitTask.1 = .drop →
        (p.step (.load key program)).1 = .issued p.waiters.length true ∧
          p.answerAfter? (.load key program) p.desk.coordinator.nextId =
            some (.error .dropped) := by
  intro start p
  have hstart : start.Sound := sound_new executor
  have hsound : p.Sound := hstart.run requests
  have hobserved := hstart.observed requests
  refine ⟨hsound.served, fun later id answer => hsound.answer?_run later,
    fun seen hseen => ⟨hobserved seen hseen, fun other hother hid => ?_⟩,
    fun handle => hsound.settles,
    fun key program hfree hup haway => load_of_turnedAway haway hfree hup program⟩
  have hsame : other.2 = seen.2 := by
    have hanswer := hobserved other hother
    rw [hid, hobserved seen hseen, Option.some_inj] at hanswer
    exact hanswer.symm
  refine ⟨hsame, fun error source herror hsource => ⟨error, hsame.trans herror, ?_⟩⟩
  rw [CacheError.sameSource, hsource]
  exact beq_self_eq_true _

/-- The theorem for two loads, one with two waiters: its task finds an error, and both waiters see
the same; the task of the other is dropped before it was polled; and a third load is not taken. -/
theorem run_served_three :
    let requests : List (Request String Nat) :=
      [.load "a" (.finish .nothing), .load "a" (.finish .nothing), .load "b" (.finish (.value 1)),
        .treat .reject .queue]
    let failure : Answer String Nat := .error (.loader ⟨.message "no", 0⟩)
    let start : LoadPool String Nat := { desk := { executor := {} } }
    let p := start.run requests
    let seen := start.observations (requests ++ [.settle 0 failure, .poll 0, .poll 1])
    p.answerAfter? (.settle 0 failure) 0 = some failure ∧
      seen.map (·.1) = [⟨"a", 0⟩, ⟨"a", 0⟩] ∧ (∀ x ∈ seen, ∀ y ∈ seen, y.2 = x.2) ∧
      p.answerAfter? (.abandon 1) 1 = some (.error .dropped) ∧
      p.answerAfter? (.load "c" (.finish .nothing)) 2 = some (.error .dropped) := by
  intro requests failure start p seen
  obtain ⟨-, -, -, hsettles, haway⟩ := run_served {} requests
  obtain ⟨-, -, hobserved, -⟩ := run_served {} (requests ++ [.settle 0 failure, .poll 0, .poll 1])
  have hfirst : p.desk.coordinator.isCurrent "a" 0 = true := by decide +kernel
  have hsecond : p.desk.coordinator.isCurrent "b" 1 = true := by decide +kernel
  have hthird : p.desk.coordinator.pending? "c" = none := by decide +kernel
  have htask : p.desk.task? 1 = some ⟨⟨"b", 1⟩, false, {}, .fresh (some (.finish (.value 1)))⟩ := by
    decide +kernel
  have hseen : seen.map (·.1) = [⟨"a", 0⟩, ⟨"a", 0⟩] := by decide +kernel
  have hid : ∀ x ∈ seen, x.1.id = 0 := by
    intro x hx
    have hmem := List.mem_map_of_mem (f := (·.1)) hx
    rw [hseen] at hmem
    simp only [List.mem_cons, List.not_mem_nil, or_false, or_self] at hmem
    rw [hmem]
  refine ⟨(hsettles ⟨"a", 0⟩ hfirst).found failure, hseen, fun x hx y hy => ?_,
    (hsettles ⟨"b", 1⟩ hsecond).dropped _ htask, ?_⟩
  · exact ((hobserved x hx).2 y hy ((hid y hy).trans (hid x hx).symm)).1
  · have hup : p.desk.coordinator.lifecycle.isDown = false := by decide +kernel
    have hreject : p.desk.executor.admitTask.1 = .reject := by decide +kernel
    have hnext : p.desk.coordinator.nextId = 2 := by decide +kernel
    have hrefused := (haway "c" (.finish .nothing) hthird hup (.inl hreject)).2
    rwa [hnext] at hrefused

end BoundedCache.LoadPool
