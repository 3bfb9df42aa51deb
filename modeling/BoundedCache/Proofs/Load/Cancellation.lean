import BoundedCache.Proofs.Load.Pool

/-!
# Which loads are cancelled, and when

After every run of a pool a key has one pending load at most, which has been started once
and counts the waiters that hold it (`Counted`).  A pending load is cancelled by the request
that drops the last handle of it, or that cancels everything, and by no other (`Cancels`);
what that means for its task and its waiters is `Stopped`.

Requests that concern another load, a late one of the same key included, leave a pending
load as it is (`Untouched`).  So a load is only ever touched under its own number.
-/

namespace BoundedCache.LoadPool

variable {K V : Type} [DecidableEq K] {p : LoadPool K V} {key : K} {load : PendingLoad}

/-- A pending load has been started once, has its task, and as many waiters as handles of it
are held, which is one at least.  It has neither been answered nor cancelled. -/
structure Counted (p : LoadPool K V) (key : K) (load : PendingLoad) : Prop where
  started_once : p.started.count ⟨key, load.id⟩ = 1
  task : ∃ task, p.desk.task? load.id = some task ∧ task.handle = ⟨key, load.id⟩
  waiters_eq : load.waiters = p.handles.count ⟨key, load.id⟩
  waiters_pos : 1 ≤ load.waiters
  unanswered : p.desk.coordinator.answer? load.id = none
  not_cancelled : p.desk.coordinator.isCancelled load.id = false

/-- The request drops the last handle of a load, or cancels everything. -/
def Cancels (p : LoadPool K V) (handle : LoadHandle K) : Request K V → Prop
  | .cancelAll => True
  | .drop waiter => p.hold? waiter = some handle ∧ p.handles.count handle = 1
  | _ => False

/-- The load of the handle has been cancelled: the flag is up, the table has it no more, its
waiters get to know, and its task has a ticket and goes no further. -/
structure Stopped (p : LoadPool K V) (handle : LoadHandle K) : Prop where
  flag : p.desk.coordinator.isCancelled handle.id = true
  removed : p.desk.coordinator.isCurrent handle.key handle.id = false
  answer : p.desk.coordinator.answer? handle.id = some (.error .cancelled)
  task : ∃ task, p.desk.poll? handle.id = some (.aborted task)
  ticket : .task handle.id ∈ p.desk.executor.queue

/-- The request finishes or drops the task of another load, or concerns a waiter of another
load, or none. -/
def Elsewhere (p : LoadPool K V) (handle : LoadHandle K) : Request K V → Prop
  | .pollTask id | .settle id _ | .abandon id => id ≠ handle.id
  | .drop waiter | .poll waiter => ∀ other, p.hold? waiter = some other → other.id ≠ handle.id
  | _ => False

/-- The load of the handle is what it was: its place in the table with the number of its
waiters, its task, and the handles held of it. -/
structure Untouched (p p' : LoadPool K V) (handle : LoadHandle K) : Prop where
  spared : p.desk.coordinator.Spares handle p'.desk.coordinator
  task : p'.desk.task? handle.id = p.desk.task? handle.id
  handles : p'.handles.count handle = p.handles.count handle

theorem Sound.counted (h : p.Sound) (hload : p.desk.coordinator.pending? key = some load) :
    p.Counted key load := by
  obtain ⟨hbegun, hunanswered, hwaiters, hpos⟩ := h.serves.waited key load hload
  obtain ⟨task, hmem, hhandle⟩ :=
    h.staffed key load.id (Coordinator.isCurrent_iff.mpr ⟨load, hload, rfl⟩)
  refine ⟨?_, ⟨task, ?_, hhandle⟩, hwaiters, hpos, hunanswered, h.serves.not_isCancelled hload⟩
  · exact List.count_eq_one_of_mem (List.Nodup.of_map _ h.serves.ids_nodup) hbegun
  · rw [← LoadDesk.Works.task?_eq h hmem, hhandle]

/-! ## What cancels a load -/

/-- A load that goes with a waiter goes with its last one. -/
theorem Sound.last_of_detached (h : p.Sound)
    (hload : p.desk.coordinator.pending? key = some load) {handle : LoadHandle K}
    (hgone : load.id ∈ (p.desk.coordinator.detach (.error .cancelled) handle).1) :
    handle = ⟨key, load.id⟩ ∧ load.waiters = 1 := by
  rcases p.desk.coordinator.detach_cases (.error .cancelled) handle with
    ⟨-, heq⟩ | ⟨other, -, -, -, heq⟩ | ⟨other, hother, hid, hlast, heq⟩
  · rw [heq] at hgone
    exact absurd hgone List.not_mem_nil
  · rw [heq] at hgone
    exact absurd hgone List.not_mem_nil
  · rw [heq] at hgone
    have hsame : load.id = other.id := List.mem_singleton.mp hgone
    obtain rfl := h.serves.key_eq_of_id_eq hload hother hsame
    rw [hload, Option.some_inj] at hother
    subst hother
    have hpos := (h.counted hload).waiters_pos
    refine ⟨?_, by omega⟩
    rw [hid]

theorem Sound.cancels_of_isCancelled (h : p.Sound)
    (hload : p.desk.coordinator.pending? key = some load) {request : Request K V}
    {p' : LoadPool K V} (heffect : p.Effect request p')
    (hcancelled : p'.desk.coordinator.isCancelled load.id = true) :
    p.Cancels ⟨key, load.id⟩ request := by
  have hbefore : load.id ∉ p.desk.coordinator.cancelled := by
    have hnot := (h.counted hload).not_cancelled
    simpa [Coordinator.isCancelled] using hnot
  -- most requests leave the record of cancellations alone
  have hsame : ¬ p'.desk.coordinator.cancelled = p.desk.coordinator.cancelled := by
    intro heq
    rw [Coordinator.isCancelled, heq] at hcancelled
    exact hbefore (by simpa using hcancelled)
  cases heffect with
  | progress hprogress => exact absurd hprogress.cancelled hsame
  | joined program hload => exact absurd rfl hsame
  | started program hfree hup hbegins hturn =>
      exact absurd (hturn.progresses.cancelled.trans hbegins.cancelled) hsame
  | cancelled => trivial
  | @left _ waiter handle hhold answer hcause =>
      have hmem : load.id ∈ (p.desk.coordinator.detach (.error .cancelled) handle).1 := by
        rw [Coordinator.isCancelled, depart, LoadDesk.detach_eq] at hcancelled
        dsimp only at hcancelled
        rw [Coordinator.cancelled_detach, List.contains_eq_mem, decide_eq_true_iff,
          List.mem_append] at hcancelled
        exact hcancelled.resolve_right hbefore
      obtain ⟨rfl, hone⟩ := h.last_of_detached hload hmem
      rcases hcause with rfl | ⟨-, hanswered⟩
      · refine ⟨hhold, ?_⟩
        rw [← (h.counted hload).waiters_eq, hone]
      · rw [(h.counted hload).unanswered] at hanswered
        exact absurd hanswered Bool.false_ne_true

/-- Once a cancellation is on record and the task has its ticket, all the rest follows. -/
theorem Sound.stopped (h : p.Sound) {handle : LoadHandle K} {task : LoadTask K V}
    (hcancelled : handle.id ∈ p.desk.coordinator.cancelled)
    (htask : p.desk.task? handle.id = some task)
    (hticket : .task handle.id ∈ p.desk.executor.queue) : p.Stopped handle := by
  have hanswer := h.serves.cancelled_answer _ hcancelled
  have hflag : p.desk.coordinator.isCancelled handle.id = true := by
    simpa [Coordinator.isCancelled] using hcancelled
  have hremoved := h.serves.isCurrent_of_answered (by rw [hanswer]; rfl) handle.key
  refine ⟨hflag, hremoved, hanswer, ⟨task, ?_⟩, hticket⟩
  rw [LoadDesk.poll?, htask]
  exact if_pos hflag

theorem Sound.stopped_of_cancels (h : p.Sound)
    (hload : p.desk.coordinator.pending? key = some load) {request : Request K V}
    (hcancels : p.Cancels ⟨key, load.id⟩ request) :
    (p.step request).2.Stopped ⟨key, load.id⟩ := by
  have hsound := h.step request
  obtain ⟨task, htask, -⟩ := (h.counted hload).task
  cases request with
  | cancelAll =>
      have hmem : load.id ∈ (p.desk.coordinator.cancelAll (.error .cancelled)).1 :=
        List.mem_map.mpr ⟨(key, load),
          ((Enumerates.lookup h.serves.keys_nodup).mem_iff key load).mpr hload, rfl⟩
      have htask' : (p.desk.cancelAll (.error .cancelled)).task? load.id = some task := by
        rw [LoadDesk.cancelAll_eq]
        exact htask
      refine hsound.stopped ?_ htask' (LoadDesk.mem_queue_wakeAll hmem htask)
      show load.id ∈ (p.desk.cancelAll (.error .cancelled)).coordinator.cancelled
      rw [LoadDesk.cancelAll_eq]
      dsimp only
      rw [Coordinator.cancelled_cancelAll]
      exact List.mem_append_left _ (List.mem_reverse.mpr hmem)
  | drop waiter =>
      obtain ⟨hhold, hlast⟩ := hcancels
      have hone : ¬ 1 < load.waiters := by
        rw [(h.counted hload).waiters_eq, hlast]
        exact Nat.lt_irrefl 1
      have hmem : load.id ∈ (p.desk.coordinator.detach (.error .cancelled) ⟨key, load.id⟩).1 := by
        rw [Coordinator.detach_of_last hload rfl hone]
        exact List.mem_singleton_self _
      have htask' :
          (p.desk.detach (.error .cancelled) ⟨key, load.id⟩).task? load.id = some task := by
        rw [LoadDesk.detach_eq]
        exact htask
      rw [step_drop hhold] at hsound ⊢
      refine hsound.stopped ?_ htask' (LoadDesk.mem_queue_wakeAll hmem htask)
      show load.id ∈ (p.desk.detach (.error .cancelled) ⟨key, load.id⟩).coordinator.cancelled
      rw [LoadDesk.detach_eq]
      dsimp only
      rw [Coordinator.cancelled_detach]
      exact List.mem_append_left _ hmem
  | _ => exact hcancels.elim

/-! ## What leaves a load alone -/

theorem Untouched.refl (p : LoadPool K V) (handle : LoadHandle K) : Untouched p p handle :=
  ⟨.refl _ _, rfl, rfl⟩

theorem untouched_of_turns {desk : LoadDesk K V (Answer K V)} {id : Nat}
    (hturn : p.desk.Turns id desk) (hload : p.desk.coordinator.pending? key = some load)
    (hid : id ≠ load.id) : Untouched p { p with desk := desk } ⟨key, load.id⟩ := by
  obtain ⟨hspares, htask⟩ := hturn.spares hload hid
  exact ⟨hspares, htask, rfl⟩

theorem untouched_of_depart (hload : p.desk.coordinator.pending? key = some load) {waiter : Nat}
    {handle : LoadHandle K} (hhold : p.hold? waiter = some handle) (hid : handle.id ≠ load.id)
    (answer : Option (Answer K V)) :
    Untouched p (p.depart waiter handle answer) ⟨key, load.id⟩ where
  spared := by
    rw [depart, LoadDesk.detach_eq]
    exact Coordinator.spares_detach hload hid _
  task := by
    rw [depart, LoadDesk.detach_eq]
    rfl
  handles := by
    rw [(handles_depart hhold answer).count_eq, List.count_cons_of_ne]
    intro hsame
    exact hid (congrArg LoadHandle.id hsame)

theorem untouched_of_elsewhere (hload : p.desk.coordinator.pending? key = some load)
    {request : Request K V} (helsewhere : p.Elsewhere ⟨key, load.id⟩ request) :
    Untouched p (p.step request).2 ⟨key, load.id⟩ := by
  cases request with
  | pollTask id =>
      obtain ⟨desk, heq, hturn⟩ := p.turns_pollTask id
      rw [step, heq]
      exact untouched_of_turns hturn hload helsewhere
  | settle id answer =>
      obtain ⟨desk, heq, hturn⟩ := p.turns_settle id answer
      rw [step, heq]
      exact untouched_of_turns hturn hload helsewhere
  | abandon id => exact untouched_of_turns (p.desk.turns_abandon id .error) hload helsewhere
  | drop waiter =>
      rcases p.step_drop_cases waiter with heq | ⟨handle, hhold, heq⟩
      · rw [heq]
        exact .refl p _
      · rw [heq]
        exact untouched_of_depart hload hhold (helsewhere handle hhold) none
  | poll waiter =>
      rcases p.step_poll_cases waiter with heq | ⟨handle, answer, hhold, -, heq⟩
      · rw [heq]
        exact .refl p _
      · rw [heq]
        exact untouched_of_depart hload hhold (helsewhere handle hhold) _
  | _ => exact helsewhere.elim

/-! ## What starts a load -/

/-- A load is started for a key that has none, by a cache that takes work; whoever asks for
a key that is being loaded starts nothing. -/
theorem started_step (p : LoadPool K V) (request : Request K V) :
    (p.step request).2.started = p.started ∨
      ∃ key program, request = .load key program ∧ p.desk.coordinator.pending? key = none ∧
        p.desk.coordinator.lifecycle.isDown = false ∧
        (p.step request).2.started = ⟨key, p.desk.coordinator.nextId⟩ :: p.started := by
  generalize hafter : (p.step request).2 = p'
  have heffect := p.effect_step request
  rw [hafter] at heffect
  cases heffect with
  | progress hprogress => exact .inl rfl
  | joined program hload => exact .inl rfl
  | started program hfree hup hbegins hturn => exact .inr ⟨_, program, rfl, hfree, hup, rfl⟩
  | left hhold answer hcause => exact .inl rfl
  | cancelled => exact .inl rfl

/-- After every run a key has one pending load at most.  It has been started once and counts
its handles; it is cancelled with its last handle or with all others, and not before; and it
stays as it is through whatever becomes of other loads, those of its own key included.  No
request starts a load but one for a key that has none. -/
theorem run_counted (executor : Executor) (requests : List (Request K V)) :
    let p := ({ desk := { executor := executor } } : LoadPool K V).run requests
    (p.desk.coordinator.pending.map Prod.fst).Nodup ∧
      (∀ key load, p.desk.coordinator.pending? key = some load →
        p.Counted key load ∧ ∀ request,
          ((p.step request).2.desk.coordinator.isCancelled load.id = true ↔
            p.Cancels ⟨key, load.id⟩ request) ∧
          (p.Cancels ⟨key, load.id⟩ request → (p.step request).2.Stopped ⟨key, load.id⟩) ∧
          (p.Elsewhere ⟨key, load.id⟩ request →
            p.Untouched (p.step request).2 ⟨key, load.id⟩)) ∧
      ∀ request, (p.step request).2.started = p.started ∨
        ∃ key program, request = .load key program ∧ p.desk.coordinator.pending? key = none ∧
          p.desk.coordinator.lifecycle.isDown = false ∧
          (p.step request).2.started = ⟨key, p.desk.coordinator.nextId⟩ :: p.started := by
  intro p
  have hsound : p.Sound := (sound_new executor).run requests
  refine ⟨hsound.serves.keys_nodup, fun key load hload => ⟨hsound.counted hload, fun request => ?_⟩,
    p.started_step⟩
  have hstopped : p.Cancels ⟨key, load.id⟩ request →
      (p.step request).2.Stopped ⟨key, load.id⟩ := hsound.stopped_of_cancels hload
  refine ⟨⟨hsound.cancels_of_isCancelled hload (p.effect_step request), fun hcancels => ?_⟩,
    hstopped, untouched_of_elsewhere hload⟩
  exact (hstopped hcancels).flag

end BoundedCache.LoadPool
