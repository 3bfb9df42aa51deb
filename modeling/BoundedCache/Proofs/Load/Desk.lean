import BoundedCache.Load.Desk
import BoundedCache.Proofs.Load.Coordinator

/-!
# The tasks of the loads

A desk `Works` if its coordinator serves and every pending load has its task; so there is
always somebody who will answer it, or whose end will.

Whatever an executor does to one task, the desk takes a turn of it (`Turns`): nothing comes
of it, the task goes on waiting, or it ends and its load gets an answer.  The order of the
turns is left open, and so is the answer.
-/

namespace BoundedCache

/-- The task that a poll is about. -/
def Poll.task {K V : Type} : Poll K V → LoadTask K V
  | .aborted task | .begin task _ | .resume task _ | .settle task _ => task

/-- The error of a load whose task is dropped: a task that was never polled counts as refused. -/
def LoadTask.dropError {K V : Type} (task : LoadTask K V) : CacheError :=
  match task.phase with
  | .fresh _ => .dropped
  | _ => .cancelled

namespace LoadDesk

variable {K V ρ : Type} {d d' : LoadDesk K V ρ} {key : K} {id : Nat} {load : PendingLoad}
  {task : LoadTask K V} {handle : LoadHandle K} {cancelledAnswer : ρ}
  {handles handles' started : List (LoadHandle K)}

/-! ## Tasks -/

theorem mem_of_task? (htask : d.task? id = some task) : task ∈ d.tasks ∧ task.handle.id = id :=
  ⟨List.mem_of_find?_eq_some htask, by simpa using List.find?_some htask⟩

theorem mem_of_poll? {poll : Poll K V} (hpoll : d.poll? id = some poll) :
    poll.task ∈ d.tasks ∧ poll.task.handle.id = id := by
  unfold poll? at hpoll
  split at hpoll
  · exact nomatch hpoll
  · rename_i htask
    have hmem := mem_of_task? htask
    split at hpoll
    · cases hpoll
      exact hmem
    · split at hpoll <;> cases hpoll <;> exact hmem

theorem handle_mem_of_poll? {poll : Poll K V} (hpoll : d.poll? id = some poll) :
    poll.task.handle ∈ d.tasks.map (·.handle) :=
  List.mem_map.mpr ⟨_, (mem_of_poll? hpoll).1, rfl⟩

theorem mem_of_orphan? (horphan : d.orphan? id = some task) :
    task ∈ d.orphans ∧ task.handle.id = id :=
  ⟨List.mem_of_find?_eq_some horphan, by simpa using List.find?_some horphan⟩

/-- A job whose turn it is belongs to a task at the desk, or to one that was dropped. -/
theorem job?_cases {work : Work V} (hjob : d.job? id = some (task, work)) :
    d.coordinator.isCancelled id = false ∧ task.phase = .onJob work ∧ task.handle.id = id ∧
      (d.task? id = some task ∨ d.task? id = none ∧ task ∈ d.orphans) := by
  unfold job? at hjob
  split at hjob
  · exact nomatch hjob
  · rename_i hlive
    split at hjob
    · exact nomatch hjob
    · rename_i htask
      split at hjob
      · rename_i hphase
        cases hjob
        refine ⟨Bool.eq_false_iff.mpr hlive, hphase, ?_⟩
        rcases Option.or_eq_some_iff.mp htask with hthere | ⟨hnone, horphan⟩
        · exact ⟨(mem_of_task? hthere).2, .inl hthere⟩
        · obtain ⟨hmem, hid⟩ := mem_of_orphan? horphan
          exact ⟨hid, .inr ⟨hnone, hmem⟩⟩
      · exact nomatch hjob

theorem answerJob_of_task? {old : LoadTask K V} (htask : d.task? task.handle.id = some old)
    (outcome : LoadOutcome V) : d.answerJob task outcome =
      (d.setTask { task with phase := .answered (jobOutcome outcome) }).wake task.handle.id := by
  rw [answerJob, htask]

/-- Nobody hears of the outcome if the task was dropped. -/
theorem answerJob_of_dropped (hnone : d.task? task.handle.id = none) (outcome : LoadOutcome V) :
    d.answerJob task outcome = d.dropOrphan task.handle.id := by
  rw [answerJob, hnone]

theorem task?_dropTask (hne : id ≠ handle.id) : (d.dropTask handle.id).task? id = d.task? id := by
  unfold task? dropTask
  rw [List.find?_filter]
  congr 1
  funext task
  by_cases htask : task.handle.id = id
  · simp [htask, hne]
  · simp [htask]

theorem task?_setTask (hne : id ≠ task.handle.id) : (d.setTask task).task? id = d.task? id := by
  unfold task? setTask
  induction d.tasks with
  | nil => rfl
  | cons other rest ih =>
      rw [List.map_cons]
      by_cases hother : other.handle.id = task.handle.id
      · rw [if_pos hother, List.find?_cons_of_neg (by simp [Ne.symm hne]), ih,
          List.find?_cons_of_neg (by simp [hother, Ne.symm hne])]
      · rw [if_neg hother, List.find?_cons, List.find?_cons, ih]

theorem wake_eq (d : LoadDesk K V ρ) (id : Nat) :
    d.wake id = { d with executor := (d.wake id).executor } := by
  unfold wake
  split <;> rfl

/-- No load ends with a job. -/
theorem coordinator_answerJob (d : LoadDesk K V ρ) (task : LoadTask K V)
    (outcome : LoadOutcome V) : (d.answerJob task outcome).coordinator = d.coordinator := by
  unfold answerJob
  split
  · rw [wake_eq]
    rfl
  · rfl

theorem wakeAll_eq (d : LoadDesk K V ρ) (ids : List Nat) :
    d.wakeAll ids = { d with executor := (d.wakeAll ids).executor } := by
  unfold wakeAll
  induction ids generalizing d with
  | nil => rfl
  | cons id ids ih =>
      rw [List.foldl_cons, ih, wake_eq]

theorem cancelAll_eq (d : LoadDesk K V ρ) (cancelledAnswer : ρ) :
    d.cancelAll cancelledAnswer =
      { d with
        coordinator := (d.coordinator.cancelAll cancelledAnswer).2
        executor := (d.cancelAll cancelledAnswer).executor } :=
  wakeAll_eq { d with coordinator := (d.coordinator.cancelAll cancelledAnswer).2 } _

theorem mem_queue_wake {ticket : Ticket} (hmem : ticket ∈ d.executor.queue) (id : Nat) :
    ticket ∈ (d.wake id).executor.queue := by
  unfold wake Executor.wake
  split
  · exact hmem
  · dsimp only
    split
    · exact hmem
    · exact List.mem_append_left _ hmem

/-- Whoever is woken and has a task has a ticket. -/
theorem mem_queue_wakeAll {ids : List Nat} (hid : id ∈ ids) (htask : d.task? id = some task) :
    .task id ∈ (d.wakeAll ids).executor.queue := by
  have hkeeps : ∀ (ids : List Nat) (d : LoadDesk K V ρ), .task id ∈ d.executor.queue →
      .task id ∈ (d.wakeAll ids).executor.queue := by
    intro ids
    induction ids with
    | nil => exact fun d hmem => hmem
    | cons other ids ih => exact fun d hmem => ih _ (mem_queue_wake hmem other)
  induction ids generalizing d with
  | nil => exact absurd hid List.not_mem_nil
  | cons other ids ih =>
      rcases List.mem_cons.mp hid with rfl | hrest
      · refine hkeeps ids _ ?_
        unfold wake Executor.wake
        rw [htask]
        dsimp only
        split
        · assumption
        · simp
      · refine ih hrest ?_
        show (d.wake other).task? id = some task
        rw [wake_eq]
        exact htask

variable [DecidableEq K]

/-! ## What keeps a desk working -/

/-- The coordinator serves, and every pending load has a task. -/
structure Works (d : LoadDesk K V ρ) (cancelledAnswer : ρ)
    (handles started : List (LoadHandle K)) : Prop where
  serves : d.coordinator.Serves cancelledAnswer handles started
  tasks_nodup : (d.tasks.map fun task => task.handle.id).Nodup
  tasks_begun : ∀ task ∈ d.tasks, task.handle ∈ started
  staffed : ∀ key id, d.coordinator.isCurrent key id = true →
    ∃ task ∈ d.tasks, task.handle = ⟨key, id⟩

/-- What may come of a turn of the task of load `id`. -/
inductive Turns (d : LoadDesk K V ρ) (id : Nat) : LoadDesk K V ρ → Prop where
  | idle : Turns d id d
  | waits {task : LoadTask K V} (htask : d.task? id = some task) (phase : Phase V) :
      Turns d id (d.setTask { task with phase := phase })
  /-- What becomes of jobs that nobody waits for is left open. -/
  | ends {task : LoadTask K V} (htask : d.task? id = some task) (answer : ρ)
      (orphans : List (LoadTask K V)) :
      Turns d id { d.finish task.handle answer with orphans := orphans }

namespace Works

theorem task?_eq (h : d.Works cancelledAnswer handles started) (hmem : task ∈ d.tasks) :
    d.task? task.handle.id = some task := by
  cases hfound : d.task? task.handle.id with
  | none =>
      have hnone := List.find?_eq_none.mp hfound task hmem
      simp at hnone
  | some other =>
      obtain ⟨hother, hid⟩ := mem_of_task? hfound
      rw [List.inj_on_of_nodup_map h.tasks_nodup hother hmem hid]

theorem new (executor : Executor) (cancelledAnswer : ρ) :
    Works ({ executor := executor } : LoadDesk K V ρ) cancelledAnswer [] [] where
  serves := .new cancelledAnswer
  tasks_nodup := List.nodup_nil
  tasks_begun _ hmem := absurd hmem List.not_mem_nil
  staffed _ _ hcurrent := by simp [Coordinator.isCurrent, Coordinator.pending?] at hcurrent

/-- The coordinator may let loads go, and the executor may do what it likes. -/
theorem proceed (h : d.Works cancelledAnswer handles started) {c : Coordinator K ρ}
    (hserves : c.Serves cancelledAnswer handles' started)
    (hproceeds : d.coordinator.Proceeds c) (executor : Executor) :
    { d with coordinator := c, executor := executor }.Works cancelledAnswer handles' started where
  serves := hserves
  tasks_nodup := h.tasks_nodup
  tasks_begun := h.tasks_begun
  staffed key id hcurrent := h.staffed key id (hproceeds.current key id hcurrent)

theorem inExecutor (h : d.Works cancelledAnswer handles started) (executor : Executor) :
    { d with executor := executor }.Works cancelledAnswer handles started :=
  h.proceed h.serves (.refl _) executor

theorem withOrphans (h : d.Works cancelledAnswer handles started)
    (orphans : List (LoadTask K V)) :
    { d with orphans := orphans }.Works cancelledAnswer handles started :=
  ⟨h.serves, h.tasks_nodup, h.tasks_begun, h.staffed⟩

theorem perm (h : d.Works cancelledAnswer handles started) (hperm : handles.Perm handles') :
    d.Works cancelledAnswer handles' started :=
  h.proceed (h.serves.perm hperm) (.refl _) d.executor

theorem wake (h : d.Works cancelledAnswer handles started) (id : Nat) :
    (d.wake id).Works cancelledAnswer handles started := by
  rw [wake_eq]
  exact h.inExecutor _

theorem handles_setTask (h : d.Works cancelledAnswer handles started)
    (hmem : task.handle ∈ d.tasks.map (·.handle)) :
    (d.setTask task).tasks.map (·.handle) = d.tasks.map (·.handle) := by
  obtain ⟨old, hold, hhandle⟩ := List.mem_map.mp hmem
  unfold LoadDesk.setTask
  rw [List.map_map]
  refine List.map_congr_left fun other hother => ?_
  simp only [Function.comp_apply]
  split
  · rename_i hid
    rw [← hhandle] at hid ⊢
    rw [List.inj_on_of_nodup_map h.tasks_nodup hother hold hid]
  · rfl

/-- A task is replaced by the same task, in another phase. -/
theorem setTask (h : d.Works cancelledAnswer handles started)
    (hmem : task.handle ∈ d.tasks.map (·.handle)) :
    (d.setTask task).Works cancelledAnswer handles started := by
  have hsame : ∀ handle, (∃ t ∈ (d.setTask task).tasks, t.handle = handle) ↔
      ∃ t ∈ d.tasks, t.handle = handle := by
    intro handle
    rw [← List.mem_map, h.handles_setTask hmem, List.mem_map]
  refine ⟨h.serves, ?_, ?_, fun key id hcurrent => (hsame _).mpr (h.staffed key id hcurrent)⟩
  · have hnodup := h.tasks_nodup
    rw [show (fun task : LoadTask K V => task.handle.id) = LoadHandle.id ∘ (·.handle) from rfl,
      ← List.map_map] at hnodup ⊢
    rwa [h.handles_setTask hmem]
  · intro t ht
    obtain ⟨t', ht', heq⟩ := (hsame t.handle).mp ⟨t, ht, rfl⟩
    rw [← heq]
    exact h.tasks_begun t' ht'

/-- The task goes, and its load, if it is still pending, goes with an answer. -/
theorem finish (h : d.Works cancelledAnswer handles started) (hmem : task ∈ d.tasks)
    (answer : ρ) : (d.finish task.handle answer).Works cancelledAnswer handles started := by
  have hproceeds := d.coordinator.proceeds_complete task.handle.key task.handle.id answer
  refine ⟨h.serves.complete _ _ answer, ?_, ?_, ?_⟩
  · exact (List.filter_sublist.map _).nodup h.tasks_nodup
  · intro other hother
    exact h.tasks_begun other (List.mem_filter.mp hother).1
  · intro key id hcurrent
    obtain ⟨other, hother, hhandle⟩ := h.staffed key id (hproceeds.current key id hcurrent)
    refine ⟨other, List.mem_filter.mpr ⟨hother, ?_⟩, hhandle⟩
    -- were it the task that ended, its load would not be pending any more
    rw [decide_eq_true_iff]
    intro hid
    have hsame := List.inj_on_of_nodup_map h.tasks_nodup hother hmem hid
    rw [hsame] at hhandle
    have hlate := d.coordinator.isCurrent_complete_self task.handle.key task.handle.id answer
    have hpending : (d.coordinator.complete task.handle.key task.handle.id answer).isCurrent
        key id = true := hcurrent
    rw [hhandle] at hlate hpending
    exact Bool.false_ne_true (hlate.symm.trans hpending)

/-- A load that has begun gets its task. -/
theorem hire (h : d.Works cancelledAnswer handles started)
    (hfree : d.coordinator.pending? task.handle.key = none)
    (hid : task.handle.id = d.coordinator.nextId) :
    { d with
      coordinator := d.coordinator.begin task.handle.key
      tasks := d.tasks ++ [task] }.Works cancelledAnswer (task.handle :: handles)
        (task.handle :: started) := by
  have hhandle : (⟨task.handle.key, d.coordinator.nextId⟩ : LoadHandle K) = task.handle := by
    rw [← hid]
  have hserves := h.serves.begin hfree
  rw [hhandle] at hserves
  refine ⟨hserves, ?_, ?_, ?_⟩
  · rw [List.map_append]
    refine List.Nodup.append h.tasks_nodup (List.nodup_singleton _) ?_
    refine List.disjoint_singleton.mpr fun hmem => ?_
    obtain ⟨other, hother, hsame⟩ := List.mem_map.mp hmem
    have hlt := h.serves.id_lt _ (h.tasks_begun other hother)
    exact absurd (hsame.trans hid) (Nat.ne_of_lt hlt)
  · intro other hother
    rcases List.mem_append.mp hother with hold | hnew
    · exact List.mem_cons_of_mem _ (h.tasks_begun other hold)
    · rw [List.mem_singleton.mp hnew]
      exact List.mem_cons_self
  · intro key id hcurrent
    obtain ⟨load, hload, rfl⟩ := Coordinator.isCurrent_iff.mp hcurrent
    rw [Coordinator.pending?_begin hfree] at hload
    by_cases hkey : key = task.handle.key
    · rw [if_pos hkey, Option.some_inj] at hload
      refine ⟨task, by simp, ?_⟩
      rw [← hload, hkey, hhandle]
    · rw [if_neg hkey] at hload
      obtain ⟨other, hother, hhandle⟩ :=
        h.staffed key load.id (Coordinator.isCurrent_iff.mpr ⟨load, hload, rfl⟩)
      exact ⟨other, List.mem_append_left _ hother, hhandle⟩

/-- A load that has begun ends at once, without a task. -/
theorem turnAway (h : d.Works cancelledAnswer handles started)
    (hfree : d.coordinator.pending? key = none) (answer : ρ) :
    { d with
      coordinator := (d.coordinator.begin key).complete key d.coordinator.nextId answer }.Works
        cancelledAnswer (⟨key, d.coordinator.nextId⟩ :: handles)
        (⟨key, d.coordinator.nextId⟩ :: started) := by
  have hproceeds := (d.coordinator.begin key).proceeds_complete key d.coordinator.nextId answer
  refine ⟨(h.serves.begin hfree).complete _ _ answer, h.tasks_nodup,
    fun task hmem => List.mem_cons_of_mem _ (h.tasks_begun task hmem), ?_⟩
  intro other id hcurrent
  obtain ⟨load, hload, rfl⟩ := Coordinator.isCurrent_iff.mp (hproceeds.current other id hcurrent)
  rw [Coordinator.pending?_begin hfree] at hload
  by_cases hother : other = key
  · rw [if_pos hother, Option.some_inj] at hload
    rw [hother, ← hload] at hcurrent
    have hlate := (d.coordinator.begin key).isCurrent_complete_self key d.coordinator.nextId answer
    exact absurd (hlate.symm.trans hcurrent) Bool.false_ne_true
  · rw [if_neg hother] at hload
    exact h.staffed other load.id (Coordinator.isCurrent_iff.mpr ⟨load, hload, rfl⟩)

end Works

/-! ## Turns of a task -/

/-- Whatever holds of the desk's work goes on to hold, and no load is cancelled. -/
structure Progresses (d d' : LoadDesk K V ρ) : Prop where
  works : ∀ {cancelledAnswer handles started},
    d.Works cancelledAnswer handles started → d'.Works cancelledAnswer handles started
  answers : d.coordinator.answers <:+ d'.coordinator.answers
  cancelled : d'.coordinator.cancelled = d.coordinator.cancelled

theorem Progresses.refl (d : LoadDesk K V ρ) : Progresses d d := ⟨id, List.suffix_rfl, rfl⟩

theorem Progresses.trans {d'' : LoadDesk K V ρ} (h : Progresses d d') (h' : Progresses d' d'') :
    Progresses d d'' :=
  ⟨fun hworks => h'.works (h.works hworks), h.answers.trans h'.answers,
    h'.cancelled.trans h.cancelled⟩

theorem progresses_inExecutor (d : LoadDesk K V ρ) (executor : Executor) :
    Progresses d { d with executor := executor } :=
  ⟨fun h => h.inExecutor executor, List.suffix_rfl, rfl⟩

theorem progresses_inState (d : LoadDesk K V ρ) (state : Lifecycle) :
    Progresses d { d with coordinator := { d.coordinator with lifecycle := state } } := by
  refine ⟨fun h => ?_, List.suffix_rfl, rfl⟩
  exact h.proceed (h.serves.inState state) ⟨fun _ _ => id, List.suffix_rfl⟩ d.executor

theorem Turns.progresses (hturn : d.Turns id d') : Progresses d d' := by
  cases hturn with
  | idle => exact .refl d
  | waits htask phase =>
      refine ⟨fun h => h.setTask ?_, List.suffix_rfl, rfl⟩
      exact List.mem_map.mpr ⟨_, (mem_of_task? htask).1, rfl⟩
  | ends htask answer orphans =>
      exact ⟨fun h => (h.finish (mem_of_task? htask).1 answer).withOrphans orphans,
        (Coordinator.proceeds_complete _ _ _ answer).answers,
        Coordinator.cancelled_complete _ _ _ answer⟩

/-- The jobs that are left behind when a task is dropped: the job that the task waits for comes
to those that there are. -/
def Leaves (d : LoadDesk K V ρ) (task : LoadTask K V) (orphans : List (LoadTask K V)) : Prop :=
  orphans = d.orphans ∨ orphans = d.orphans ++ [task]

/-- A task that is dropped ends its load, with an error that says how far it had come. -/
theorem abandon_cases (d : LoadDesk K V ρ) (id : Nat) (ofError : CacheError → ρ) :
    d.abandon id ofError = d ∨ ∃ task error orphans, d.task? id = some task ∧
      d.Leaves task orphans ∧
      d.abandon id ofError = { d.finish task.handle (ofError error) with orphans := orphans } := by
  unfold abandon
  cases htask : d.task? id with
  | none => exact .inl rfl
  | some task =>
      dsimp only
      split
      · exact .inr ⟨task, .dropped, d.orphans, rfl, .inl rfl, rfl⟩
      · exact .inr ⟨task, .cancelled, _, rfl, .inr rfl, rfl⟩
      · exact .inr ⟨task, .cancelled, d.orphans, rfl, .inl rfl, rfl⟩

theorem abandon_of_task (htask : d.task? id = some task) (ofError : CacheError → ρ) :
    ∃ orphans, d.abandon id ofError =
      { d.finish task.handle (ofError task.dropError) with orphans := orphans } := by
  unfold abandon LoadTask.dropError
  rw [htask]
  cases hphase : task.phase with
  | onJob work => exact ⟨d.orphans ++ [task], by simp only [hphase]⟩
  | fresh program | atGate rest | ready rest | answered outcome =>
      exact ⟨d.orphans, by simp only [hphase]; rfl⟩

theorem turns_abandon (d : LoadDesk K V ρ) (id : Nat) (ofError : CacheError → ρ) :
    d.Turns id (d.abandon id ofError) := by
  rcases d.abandon_cases id ofError with heq | ⟨task, error, orphans, htask, -, heq⟩
  · rw [heq]
    exact .idle
  · rw [heq]
    exact .ends htask _ orphans

/-- What the gate of `key` does to one task when it opens. -/
def passGate (key : K) (d : LoadDesk K V ρ) (task : LoadTask K V) : LoadDesk K V ρ :=
  match task.phase with
  | .atGate rest =>
      if task.handle.key = key then
        (d.setTask { task with phase := .ready rest }).wake task.handle.id
      else d
  | _ => d

theorem openGate_eq (d : LoadDesk K V ρ) (key : K) :
    d.openGate key = d.tasks.foldl (passGate key) d := rfl

theorem passGate_cases (key : K) (d : LoadDesk K V ρ) (task : LoadTask K V) :
    passGate key d task = d ∨ ∃ phase, passGate key d task =
      (d.setTask { task with phase := phase }).wake task.handle.id := by
  unfold passGate
  split
  · split
    · exact .inr ⟨_, rfl⟩
    · exact .inl rfl
  · exact .inl rfl

/-- A gate that opens is a matter of the tasks. -/
theorem openGate_frame (d : LoadDesk K V ρ) (key : K) :
    d.openGate key =
      { d with executor := (d.openGate key).executor, tasks := (d.openGate key).tasks } := by
  have hloop : ∀ (tasks : List (LoadTask K V)) (d : LoadDesk K V ρ),
      let passed := tasks.foldl (passGate key) d
      passed = { d with executor := passed.executor, tasks := passed.tasks } := by
    intro tasks
    induction tasks with
    | nil => exact fun d => rfl
    | cons task tasks ih =>
        intro d
        rw [List.foldl_cons, ih]
        rcases passGate_cases key d task with heq | ⟨phase, heq⟩
        · rw [heq]
        · rw [heq, wake_eq]
          rfl
  rw [openGate_eq]
  exact hloop _ d

theorem coordinator_openGate (d : LoadDesk K V ρ) (key : K) :
    (d.openGate key).coordinator = d.coordinator := by
  rw [openGate_frame]

theorem Works.openGate (h : d.Works cancelledAnswer handles started) (key : K) :
    (d.openGate key).Works cancelledAnswer handles started := by
  -- the tasks met on the way are the old ones; what stays true is that they are still there
  have hloop : ∀ (tasks : List (LoadTask K V)) (d : LoadDesk K V ρ),
      d.Works cancelledAnswer handles started →
      (∀ task ∈ tasks, task.handle ∈ d.tasks.map (·.handle)) →
      (tasks.foldl (passGate key) d).Works cancelledAnswer handles started := by
    intro tasks
    induction tasks with
    | nil => exact fun d h _ => h
    | cons task tasks ih =>
        intro d h hthere
        have hrest : ∀ other ∈ tasks, other.handle ∈ d.tasks.map (·.handle) :=
          fun other hother => hthere other (List.mem_cons_of_mem _ hother)
        rw [List.foldl_cons]
        rcases passGate_cases key d task with heq | ⟨phase, heq⟩
        · rw [heq]
          exact ih d h hrest
        · have hmem : ({ task with phase := phase } : LoadTask K V).handle ∈
              d.tasks.map (·.handle) := hthere task List.mem_cons_self
          rw [heq]
          refine ih _ ((h.setTask hmem).wake _) fun other hother => ?_
          rw [wake_eq]
          show other.handle ∈ (d.setTask { task with phase := phase }).tasks.map (·.handle)
          rw [h.handles_setTask hmem]
          exact hrest other hother
  rw [openGate_eq]
  exact hloop _ d h fun task hmem => List.mem_map.mpr ⟨task, hmem, rfl⟩

theorem progresses_openGate (d : LoadDesk K V ρ) (key : K) : Progresses d (d.openGate key) := by
  have hcoordinator := d.coordinator_openGate key
  exact ⟨fun h => h.openGate key, hcoordinator ▸ List.suffix_rfl, by rw [hcoordinator]⟩

/-! ## Waiters come and go -/

/-- What a load that begins may find: the executor takes its task, perhaps to be polled at
once, or the load ends without one. -/
inductive Begins (d : LoadDesk K V ρ) (task : LoadTask K V) (ofError : CacheError → ρ) :
    Launch → LoadDesk K V ρ → Prop where
  | hired (launch : Launch) (executor : Executor) :
      Begins d task ofError launch { d with
        coordinator := d.coordinator.begin task.handle.key
        executor := executor
        tasks := d.tasks ++ [task] }
  | turnedAway (executor : Executor) :
      Begins d task ofError .later { d with
        coordinator := (d.coordinator.begin task.handle.key).complete task.handle.key
          task.handle.id (ofError .dropped)
        executor := executor }

theorem begins_launch (d : LoadDesk K V ρ) (task : LoadTask K V) (ofError : CacheError → ρ) :
    let begun := { d with coordinator := d.coordinator.begin task.handle.key }
    Begins d task ofError (begun.launch task ofError).1 (begun.launch task ofError).2 := by
  dsimp only
  unfold launch
  split
  rename_i admission executor _
  cases admission with
  | queue =>
      dsimp only
      rw [wake_eq]
      exact .hired .later _
  | inline => exact .hired .now executor
  | drop => exact .turnedAway executor
  | reject =>
      -- the refusal comes too late: the load has been answered by the drop
      have hlate := (d.coordinator.begin task.handle.key).isCurrent_complete_self
        task.handle.key task.handle.id (ofError .dropped)
      dsimp only
      rw [complete, complete, Coordinator.complete_of_late hlate]
      exact .turnedAway executor

/-- The task of a load that begins. -/
def newTask (d : LoadDesk K V ρ) (key : K) (attributes : Attributes) (forced : Bool)
    (program : Option (LoadProgram V)) : LoadTask K V where
  handle := ⟨key, d.coordinator.nextId⟩
  forced := forced
  attributes := attributes
  phase := .fresh program

/-- A load whose task is not taken is answered when its task is dropped, before the executor says
why. -/
theorem request_of_turnedAway
    (haway : d.executor.admitTask.1 = .reject ∨ d.executor.admitTask.1 = .drop)
    (hfree : d.coordinator.pending? key = none) (hup : d.coordinator.lifecycle.isDown = false)
    (attributes : Attributes) (forced : Bool) (program : Option (LoadProgram V))
    (ofError : CacheError → ρ) :
    ∃ d', d.request key attributes forced program ofError =
        ((.started ⟨key, d.coordinator.nextId⟩, .later), d') ∧
      d'.coordinator.answer? d.coordinator.nextId = some (ofError .dropped) := by
  have hcurrent : (d.coordinator.begin key).isCurrent key d.coordinator.nextId = true := by
    have hpending := (Coordinator.pending?_begin hfree key).trans (if_pos rfl)
    exact Coordinator.isCurrent_iff.mpr ⟨_, hpending, rfl⟩
  have hdropped := Coordinator.answer?_complete hcurrent (ofError .dropped)
  have hlate := (d.coordinator.begin key).isCurrent_complete_self key d.coordinator.nextId
    (ofError .dropped)
  rw [request, Coordinator.attach_of_free hfree hup]
  dsimp only
  rw [launch]
  rcases hadmission : d.executor.admitTask with ⟨admission, executor⟩
  rw [hadmission] at haway
  dsimp only
  rcases haway with rfl | rfl
  · dsimp only
    rw [complete, complete, Coordinator.complete_of_late hlate]
    exact ⟨_, rfl, hdropped⟩
  · exact ⟨_, rfl, hdropped⟩

/-- A request joins the load of the key, is refused, or begins a load. -/
theorem request_cases (d : LoadDesk K V ρ) (key : K) (attributes : Attributes) (forced : Bool)
    (program : Option (LoadProgram V)) (ofError : CacheError → ρ) :
    (∃ load, d.coordinator.pending? key = some load ∧
      d.request key attributes forced program ofError = ((.joined ⟨key, load.id⟩, .later),
        { d with coordinator := d.coordinator.recount key (· + 1) })) ∨
    (d.coordinator.pending? key = none ∧ d.coordinator.lifecycle.isDown = true ∧
      d.request key attributes forced program ofError =
        ((.refused (.unavailable d.coordinator.lifecycle.name), .later), d)) ∨
    (d.coordinator.pending? key = none ∧ d.coordinator.lifecycle.isDown = false ∧
      ∃ launch d', d.Begins (d.newTask key attributes forced program) ofError launch d' ∧
        d.request key attributes forced program ofError =
          ((.started ⟨key, d.coordinator.nextId⟩, launch), d')) := by
  unfold request
  rcases d.coordinator.attach_cases key with
    ⟨load, hload, heq⟩ | ⟨hfree, hdown, heq⟩ | ⟨hfree, hup, heq⟩
  · exact .inl ⟨load, hload, by rw [heq]⟩
  · exact .inr (.inl ⟨hfree, hdown, by rw [heq]⟩)
  · exact .inr (.inr ⟨hfree, hup, _, _, d.begins_launch _ ofError, by rw [heq]; rfl⟩)

section

variable {ofError : CacheError → ρ} {launch : Launch}

theorem Begins.works (hbegins : d.Begins task ofError launch d')
    (hfree : d.coordinator.pending? task.handle.key = none)
    (hid : task.handle.id = d.coordinator.nextId) (h : d.Works cancelledAnswer handles started) :
    d'.Works cancelledAnswer (task.handle :: handles) (task.handle :: started) := by
  cases hbegins with
  | hired launch executor => exact (h.hire hfree hid).inExecutor executor
  | turnedAway executor =>
      have haway := (h.turnAway hfree (ofError .dropped)).inExecutor executor
      rw [← hid] at haway
      exact haway

theorem Begins.answers (hbegins : d.Begins task ofError launch d') :
    d.coordinator.answers <:+ d'.coordinator.answers := by
  cases hbegins with
  | hired launch executor => exact List.suffix_rfl
  | turnedAway executor =>
      exact (Coordinator.proceeds_complete (d.coordinator.begin _) _ _ _).answers

theorem Begins.cancelled (hbegins : d.Begins task ofError launch d') :
    d'.coordinator.cancelled = d.coordinator.cancelled := by
  cases hbegins with
  | hired launch executor => rfl
  | turnedAway executor => exact Coordinator.cancelled_complete (d.coordinator.begin _) _ _ _

end

theorem Works.join (h : d.Works cancelledAnswer handles started)
    (hload : d.coordinator.pending? key = some load) :
    { d with coordinator := d.coordinator.recount key (· + 1) }.Works cancelledAnswer
      (⟨key, load.id⟩ :: handles) started := by
  refine h.proceed (h.serves.join hload) ⟨fun key id hcurrent => ?_, List.suffix_rfl⟩ _
  rwa [Coordinator.isCurrent_recount] at hcurrent

theorem detach_eq (d : LoadDesk K V ρ) (cancelledAnswer : ρ) (handle : LoadHandle K) :
    d.detach cancelledAnswer handle =
      { d with
        coordinator := (d.coordinator.detach cancelledAnswer handle).2
        executor := (d.detach cancelledAnswer handle).executor } :=
  wakeAll_eq { d with coordinator := (d.coordinator.detach cancelledAnswer handle).2 } _

/-- A turn of one task is nothing to the load of another. -/
theorem Turns.spares (hturn : d.Turns id d') (hload : d.coordinator.pending? key = some load)
    (hid : id ≠ load.id) :
    d.coordinator.Spares ⟨key, load.id⟩ d'.coordinator ∧ d'.task? load.id = d.task? load.id := by
  cases hturn with
  | idle => exact ⟨.refl _ _, rfl⟩
  | waits htask phase =>
      refine ⟨.refl _ _, task?_setTask ?_⟩
      rw [(mem_of_task? htask).2]
      exact hid.symm
  | ends htask answer orphans =>
      rw [← (mem_of_task? htask).2] at hid
      exact ⟨Coordinator.spares_complete hload hid _ answer, task?_dropTask hid.symm⟩

theorem Works.detach (h : d.Works cancelledAnswer (handle :: handles) started) :
    (d.detach cancelledAnswer handle).Works cancelledAnswer handles started := by
  rw [detach_eq]
  exact h.proceed h.serves.detach (Coordinator.proceeds_detach _ _ _) _

theorem Works.cancelAll (h : d.Works cancelledAnswer handles started) :
    (d.cancelAll cancelledAnswer).Works cancelledAnswer handles started := by
  rw [cancelAll_eq]
  exact h.proceed h.serves.cancelAll (Coordinator.proceeds_cancelAll _ _) _

end LoadDesk

end BoundedCache
