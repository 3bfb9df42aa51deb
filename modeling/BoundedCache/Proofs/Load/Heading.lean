import BoundedCache.Proofs.Load.Winding

/-!
# What a task is heading for

A task that will have a value to write has it, with the attributes to write it under, laid
down in its phase: in the rest of its program, in its job, or in the outcome that it was
handed.  Only a task that has yet to call the loader leaves open how often that was called
before.  So it can be told from the desk which values may still come (`LoadTask.Heads`), and
whatever becomes of the tasks, no other values do (`LoadDesk.Pursues`).
-/

namespace BoundedCache

/-! ## Programs -/

namespace LoadProgram

variable {V : Type} {a b : Attributes} {program rest : LoadProgram V} {outcome : LoadOutcome V}

/-- A program that has run up to a stop comes to the same end as before. -/
theorem runThrough_of_atGate (h : program.run a = (b, .atGate rest)) :
    program.runThrough a = rest.runThrough b := by
  induction program generalizing a with
  | finish outcome => exact nomatch h
  | awaitGate next =>
      obtain ⟨rfl, rfl⟩ : a = b ∧ next = rest := by simpa [run] using h
      rfl
  | setAttributes attributes next ih => exact ih h
  | offload outcome => exact nomatch h

theorem runThrough_of_finished (h : program.run a = (b, .finished outcome)) :
    program.runThrough a = (b, outcome) := by
  induction program generalizing a with
  | finish found =>
      obtain ⟨rfl, rfl⟩ : a = b ∧ found = outcome := by simpa [run] using h
      rfl
  | awaitGate next => exact nomatch h
  | setAttributes attributes next ih => exact ih h
  | offload found => exact nomatch h

theorem runThrough_of_offloaded (h : program.run a = (b, .offloaded outcome)) :
    program.runThrough a = (b, outcome) := by
  induction program generalizing a with
  | finish found => exact nomatch h
  | awaitGate next => exact nomatch h
  | setAttributes attributes next ih => exact ih h
  | offload found =>
      obtain ⟨rfl, rfl⟩ : a = b ∧ found = outcome := by simpa [run] using h
      rfl

end LoadProgram

/-! ## Tasks -/

variable {K V ρ : Type}

/-- The task may come to write the value under the attributes. -/
def LoadTask.Heads (loader : Option (Loader K V)) (task : LoadTask K V) (attributes : Attributes)
    (value : V) : Prop :=
  match task.phase with
  | .fresh none | .onJob .callLoader =>
      ∃ l, loader = some l ∧ ∃ count,
        (l.programFor task count).runThrough task.attributes = (attributes, .value value)
  | .fresh (some program) | .atGate program | .ready program =>
      program.runThrough task.attributes = (attributes, .value value)
  | .onJob (.find outcome) | .answered outcome =>
      task.attributes = attributes ∧ outcome = .value value

/-- The phase that a poll has found its task in, unless the load was cancelled. -/
def Poll.phase? : Poll K V → Option (Phase V)
  | .aborted _ => none
  | .begin _ program => some (.fresh program)
  | .resume _ rest => some (.ready rest)
  | .settle _ outcome => some (.answered outcome)

namespace LoadDesk

variable {d d' d'' : LoadDesk K V ρ} {loader : Option (Loader K V)} {task : LoadTask K V} {id : Nat}

theorem phase_of_poll? {poll : Poll K V} {phase : Phase V} (hpoll : d.poll? id = some poll)
    (hphase : poll.phase? = some phase) : poll.task.phase = phase := by
  unfold poll? at hpoll
  split at hpoll
  · exact nomatch hpoll
  · split at hpoll
    · cases hpoll
      exact nomatch hphase
    · split at hpoll <;> cases hpoll <;> cases hphase <;> assumption

theorem isCancelled_of_poll? (hpoll : d.poll? id = some (.aborted task)) :
    d.coordinator.isCancelled id = true := by
  unfold poll? at hpoll
  split at hpoll
  · exact nomatch hpoll
  · split at hpoll
    · assumption
    · split at hpoll <;> exact nomatch hpoll

/-- A task that is polled, and not to hear of a cancellation, is that of a pending load. -/
theorem Engaged.current_of_poll? [DecidableEq K] {poll : Poll K V} (h : d.Engaged)
    (hpoll : d.poll? id = some poll) (hgoes : poll.phase? ≠ none) :
    d.coordinator.isCurrent poll.task.handle.key poll.task.handle.id = true := by
  obtain ⟨hmem, hid⟩ := mem_of_poll? hpoll
  refine (h _ hmem).resolve_right fun hcancelled => ?_
  rw [hid] at hcancelled
  unfold poll? at hpoll
  split at hpoll
  · exact nomatch hpoll
  · rw [if_pos hcancelled] at hpoll
    cases hpoll
    exact hgoes rfl

/-- A job of a task that is at the desk is that of a pending load. -/
theorem Engaged.current_of_job? [DecidableEq K] (h : d.Engaged) (htask : d.task? id = some task)
    (hlive : d.coordinator.isCancelled id = false) :
    d.coordinator.isCurrent task.handle.key task.handle.id = true := by
  obtain ⟨hmem, rfl⟩ := mem_of_task? htask
  refine (h task hmem).resolve_right fun hcancelled => ?_
  exact absurd (hcancelled.symm.trans hlive) nofun

/-- The desk has a task of which this is a later form. -/
def Foresees (d : LoadDesk K V ρ) (loader : Option (Loader K V)) (task : LoadTask K V) : Prop :=
  ∃ old ∈ d.tasks, old.handle = task.handle ∧
    ∀ attributes value, task.Heads loader attributes value → old.Heads loader attributes value

theorem foresees_of_mem (hmem : task ∈ d.tasks) : d.Foresees loader task :=
  ⟨task, hmem, rfl, fun _ _ => id⟩

theorem Foresees.handle_mem (h : d.Foresees loader task) :
    task.handle ∈ d.tasks.map (·.handle) := by
  obtain ⟨old, hold, hhandle, -⟩ := h
  exact List.mem_map.mpr ⟨old, hold, hhandle⟩

/-- What is in turn a later form of such a task is one. -/
theorem Foresees.mono {later : LoadTask K V} (h : d.Foresees loader task)
    (hhandle : later.handle = task.handle)
    (hheads : ∀ attributes value, later.Heads loader attributes value →
      task.Heads loader attributes value) : d.Foresees loader later := by
  obtain ⟨old, hold, hsame, hold'⟩ := h
  exact ⟨old, hold, hsame.trans hhandle.symm, fun a v hlater => hold' a v (hheads a v hlater)⟩

/-- A task that is to end without a value may be any. -/
theorem Foresees.withoutValue (h : d.Foresees loader task) {outcome : LoadOutcome V}
    (hnone : ∀ value, outcome ≠ .value value) :
    d.Foresees loader { task with phase := .answered outcome } :=
  h.mono rfl fun _ value hheads => absurd hheads.2 (hnone value)

/-- All tasks are later forms of tasks that there were. -/
def Pursues (loader : Option (Loader K V)) (d d' : LoadDesk K V ρ) : Prop :=
  ∀ task ∈ d'.tasks, d.Foresees loader task

theorem pursues_of_subset (h : d'.tasks ⊆ d.tasks) : Pursues loader d d' :=
  fun _ hmem => foresees_of_mem (h hmem)

theorem Pursues.refl (loader : Option (Loader K V)) (d : LoadDesk K V ρ) : Pursues loader d d :=
  pursues_of_subset (List.Subset.refl _)

theorem Pursues.foresees (h : Pursues loader d d') (hlater : d'.Foresees loader task) :
    d.Foresees loader task := by
  obtain ⟨old, hold, hhandle, hheads⟩ := hlater
  exact (h old hold).mono hhandle.symm hheads

theorem Pursues.trans (h : Pursues loader d d') (h' : Pursues loader d' d'') :
    Pursues loader d d'' :=
  fun task hmem => h.foresees (h' task hmem)

theorem Pursues.setTask (h : Pursues loader d d') (htask : d.Foresees loader task) :
    Pursues loader d (d'.setTask task) := by
  intro other hother
  obtain ⟨old, hold, rfl⟩ := List.mem_map.mp hother
  split
  · exact htask
  · exact h old hold

/-! ## What happens at a desk -/

theorem pursues_cancelAll (d : LoadDesk K V ρ) (cancelledAnswer : ρ) :
    Pursues loader d (d.cancelAll cancelledAnswer) := by
  rw [cancelAll_eq]
  exact pursues_of_subset (List.Subset.refl _)

variable [DecidableEq K]

theorem pursues_finish (d : LoadDesk K V ρ) (handle : LoadHandle K) (answer : ρ) :
    Pursues loader d (d.finish handle answer) :=
  pursues_of_subset List.filter_sublist.subset

theorem pursues_detach (d : LoadDesk K V ρ) (cancelledAnswer : ρ) (handle : LoadHandle K) :
    Pursues loader d (d.detach cancelledAnswer handle) := by
  rw [detach_eq]
  exact pursues_of_subset (List.Subset.refl _)

theorem pursues_abandon (d : LoadDesk K V ρ) (id : Nat) (ofError : CacheError → ρ) :
    Pursues loader d (d.abandon id ofError) := by
  rcases d.abandon_cases id ofError with heq | ⟨task, error, orphans, -, -, heq⟩
  · rw [heq]
    exact .refl loader d
  · rw [heq]
    exact pursues_of_subset List.filter_sublist.subset

/-- A task that a gate leaves behind was there before, and passes the gate with its program if
it was waiting there. -/
theorem mem_passGate {later : LoadTask K V} {key : K}
    (hmem : later ∈ (passGate key d task).tasks) :
    later ∈ d.tasks ∨ ∃ rest, task.phase = .atGate rest ∧
      later = { task with phase := .ready rest } := by
  unfold passGate at hmem
  split at hmem
  · rename_i rest hphase
    split at hmem
    · rw [wake_eq] at hmem
      obtain ⟨old, hold, rfl⟩ := List.mem_map.mp hmem
      split
      · exact .inr ⟨rest, hphase, rfl⟩
      · exact .inl hold
    · exact .inl hmem
  · exact .inl hmem

theorem mem_openGate {later : LoadTask K V} {key : K} (hmem : later ∈ (d.openGate key).tasks) :
    ∃ task ∈ d.tasks, later = task ∨ ∃ rest, task.phase = .atGate rest ∧
      later = { task with phase := .ready rest } := by
  have hloop : ∀ (tasks : List (LoadTask K V)) (d' : LoadDesk K V ρ), tasks ⊆ d.tasks →
      later ∈ (tasks.foldl (passGate key) d').tasks → later ∈ d'.tasks ∨
        ∃ task ∈ d.tasks, ∃ rest, task.phase = .atGate rest ∧
          later = { task with phase := .ready rest } := by
    intro tasks
    induction tasks with
    | nil => exact fun d' _ hlater => .inl hlater
    | cons task tasks ih =>
        intro d' hsubset hlater
        obtain ⟨hthere, hrest⟩ := List.cons_subset.mp hsubset
        rcases ih _ hrest hlater with hpassed | hwaited
        · exact (mem_passGate hpassed).imp_right fun hpasses => ⟨task, hthere, hpasses⟩
        · exact .inr hwaited
  rcases hloop d.tasks d (List.Subset.refl _) hmem with hold | ⟨task, htask, hpasses⟩
  · exact ⟨later, hold, .inl rfl⟩
  · exact ⟨task, htask, .inr hpasses⟩

/-- Passing a gate, a task keeps its program. -/
theorem pursues_openGate (d : LoadDesk K V ρ) (key : K) : Pursues loader d (d.openGate key) := by
  intro later hmem
  obtain ⟨task, htask, rfl | ⟨rest, hphase, rfl⟩⟩ := mem_openGate hmem
  · exact foresees_of_mem htask
  · refine (foresees_of_mem htask).mono rfl fun a v hheads => ?_
    unfold LoadTask.Heads
    rw [hphase]
    exact hheads

end LoadDesk

end BoundedCache
