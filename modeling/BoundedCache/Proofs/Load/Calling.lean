import BoundedCache.Proofs.Load.Fate

/-!
# Who has called the loader

A desk does not call the loader itself, but it shows which of its tasks have yet to do so.
`Called` ties this to the calls that were made: no load has called twice, and the tasks that
are past calling are just those whose loads have called.  A turn may add the call of its own
load (`LoadTask.Tries`), and nothing else adds a call.  A task that was dropped while its job
was to call the loader may still add its call, but the desk takes no more notice of it.

`Continues` says what can be told of a desk from an earlier one.  Numbers below `nextId` are
those of loads that had begun by then, so a task with such a number is an old task some turns
later, and a load with such a number that is pending was pending before.  Answers stay.
-/

namespace BoundedCache

variable {K V ρ : Type}

/-- What became of the call of the loader, when a task has come from `old` to `task`, and the
calls made from `calls` to `calls'`. -/
inductive LoadTask.Tries (loader : Option (Loader K V)) (old : LoadTask K V)
    (calls calls' : List (LoadHandle K)) (task : LoadTask K V) : Prop where
  /-- It was made before, or is still to be made. -/
  | quiet (hcalls : calls' = calls) (hsame : task.phase.awaitsCall = old.phase.awaitsCall)
  | called (hcalls : calls' = old.handle :: calls) (hbefore : old.phase.awaitsCall = true)
      (hafter : task.phase.awaitsCall = false)
  /-- There is no loader. -/
  | spared (hcalls : calls' = calls) (hnone : loader = none)

namespace LoadDesk

variable [DecidableEq K] {d d' d'' : LoadDesk K V ρ} {calls calls' : List (LoadHandle K)}
  {task old : LoadTask K V} {loader : Option (Loader K V)} {cancelledAnswer : ρ}
  {handles started : List (LoadHandle K)}

/-- A waiter may go of whom the desk knows nothing. -/
theorem Works.leave (h : d.Works cancelledAnswer handles started) (handle : LoadHandle K) :
    ∃ handles', (d.detach cancelledAnswer handle).Works cancelledAnswer handles' started := by
  cases hcurrent : d.coordinator.isCurrent handle.key handle.id with
  | false =>
      have hsame : d.detach cancelledAnswer handle = d := by
        rw [LoadDesk.detach, Coordinator.detach_of_late hcurrent]
        rfl
      rw [hsame]
      exact ⟨handles, h⟩
  | true =>
      -- a pending load counts its handles, so this is one of them
      obtain ⟨load, hload, hid⟩ := Coordinator.isCurrent_iff.mp hcurrent
      obtain ⟨-, -, hwaiters, hpos⟩ := h.serves.waited _ load hload
      rw [hid] at hwaiters
      have hheld : handle ∈ handles := List.count_pos_iff.mp (hwaiters ▸ hpos)
      exact ⟨_, (h.perm (List.perm_cons_erase hheld)).detach⟩

/-! ## Calls -/

/-- No load has called the loader twice, and those with a task or a job have called it if and
only if the task is past that. -/
structure Called (d : LoadDesk K V ρ) (cancelledAnswer : ρ) (calls : List (LoadHandle K)) :
    Prop where
  engaged : d.Engaged
  works : ∃ handles started, d.Works cancelledAnswer handles started ∧ calls ⊆ started ∧
    ∀ orphan ∈ d.orphans, orphan.handle ∈ started
  nodup : calls.Nodup
  called_iff : ∀ task ∈ d.tasks ++ d.orphans,
    task.handle ∈ calls ↔ task.phase.awaitsCall = false
  /-- A load whose task was dropped has no other. -/
  apart : ∀ orphan ∈ d.orphans, ∀ task ∈ d.tasks, task.handle ≠ orphan.handle
  orphans_nodup : (d.orphans.map (·.handle.id)).Nodup

theorem called_new (executor : Executor) (cancelledAnswer : ρ) :
    Called ({ executor := executor } : LoadDesk K V ρ) cancelledAnswer [] where
  engaged := engaged_new executor
  works := ⟨[], [], .new executor cancelledAnswer, List.nil_subset [],
    fun _ hmem => absurd hmem List.not_mem_nil⟩
  nodup := List.nodup_nil
  called_iff _ hmem := absurd hmem List.not_mem_nil
  apart _ hmem := absurd hmem List.not_mem_nil
  orphans_nodup := List.nodup_nil

namespace Called

variable (h : d.Called cancelledAnswer calls)
include h

theorem ids_nodup : (calls.map (·.id)).Nodup := by
  obtain ⟨handles, started, hworks, hsubset, -⟩ := h.works
  refine List.Nodup.map_on (fun a ha b hb hid => ?_) h.nodup
  exact List.inj_on_of_nodup_map hworks.serves.ids_nodup (hsubset ha) (hsubset hb) hid

theorem id_lt (hmem : task ∈ d.tasks) : task.handle.id < d.coordinator.nextId := by
  obtain ⟨handles, started, hworks, -⟩ := h.works
  exact hworks.serves.id_lt _ (hworks.tasks_begun task hmem)

/-- A task that has yet to call the loader has not called it. -/
theorem not_called (hmem : task ∈ d.tasks ++ d.orphans)
    (hawaits : task.phase.awaitsCall = true) : task.handle ∉ calls := by
  rw [h.called_iff task hmem, hawaits]
  exact nofun

/-- A load that is pending has its task. -/
theorem exists_task {handle : LoadHandle K}
    (hcurrent : d.coordinator.isCurrent handle.key handle.id = true) :
    ∃ task ∈ d.tasks, task.handle = handle := by
  obtain ⟨handles, started, hworks, -⟩ := h.works
  exact hworks.staffed _ _ hcurrent

/-- A load whose task was dropped is not pending. -/
theorem not_isCurrent_of_orphan (horphan : task ∈ d.orphans) :
    d.coordinator.isCurrent task.handle.key task.handle.id = false := by
  rw [Bool.eq_false_iff]
  intro hcurrent
  obtain ⟨other, hother, hhandle⟩ := h.exists_task hcurrent
  exact h.apart task horphan other hother hhandle

/-- The job of a task that was dropped is found by the number of its load. -/
theorem orphan?_eq (horphan : task ∈ d.orphans) :
    d.task? task.handle.id = none ∧ d.orphan? task.handle.id = some task := by
  obtain ⟨handles, started, hworks, -, horphans⟩ := h.works
  constructor
  · refine List.find?_eq_none.mpr fun other hother hsame => ?_
    exact h.apart task horphan other hother (List.inj_on_of_nodup_map hworks.serves.ids_nodup
      (hworks.tasks_begun other hother) (horphans task horphan) (of_decide_eq_true hsame))
  · cases hfound : d.orphan? task.handle.id with
    | none =>
        have hnone := List.find?_eq_none.mp hfound task horphan
        simp at hnone
    | some other =>
        obtain ⟨hother, hid⟩ := mem_of_orphan? hfound
        rw [List.inj_on_of_nodup_map h.orphans_nodup hother horphan hid]

/-- A load that is pending has no answer. -/
theorem not_isCurrent {id : Nat} {answer : ρ} (hanswer : d.coordinator.answer? id = some answer)
    (key : K) : d.coordinator.isCurrent key id = false := by
  obtain ⟨handles, started, hworks, -⟩ := h.works
  exact hworks.serves.isCurrent_of_answered (by rw [hanswer]; rfl) key

/-- Where the tasks stay what they are to the loader, so do the calls. -/
theorem mono (hengaged : d'.Engaged)
    (hworks : ∀ {handles started}, d.Works cancelledAnswer handles started →
      ∃ handles', d'.Works cancelledAnswer handles' started)
    (htasks : ∀ later ∈ d'.tasks, ∃ task ∈ d.tasks, later.handle = task.handle ∧
      later.phase.awaitsCall = task.phase.awaitsCall)
    (horphans : d'.orphans = d.orphans) : d'.Called cancelledAnswer calls where
  engaged := hengaged
  works := by
    obtain ⟨handles, started, hold, hsubset⟩ := h.works
    obtain ⟨handles', hnew⟩ := hworks hold
    exact ⟨handles', started, hnew, horphans ▸ hsubset⟩
  nodup := h.nodup
  called_iff later hlater := by
    rcases List.mem_append.mp hlater with hthere | horphan
    · obtain ⟨task, hmem, hhandle, hawaits⟩ := htasks later hthere
      rw [hhandle, hawaits]
      exact h.called_iff task (List.mem_append_left _ hmem)
    · rw [horphans] at horphan
      exact h.called_iff later (List.mem_append_right _ horphan)
  apart orphan horphan later hlater := by
    obtain ⟨task, hmem, hhandle, -⟩ := htasks later hlater
    rw [hhandle]
    exact h.apart orphan (horphans ▸ horphan) task hmem
  orphans_nodup := horphans ▸ h.orphans_nodup

theorem inState (state : Lifecycle) :
    { d with coordinator := { d.coordinator with lifecycle := state } }.Called cancelledAnswer
      calls :=
  h.mono h.engaged (fun hworks => ⟨_, (d.progresses_inState state).works hworks⟩)
    (fun later hlater => ⟨later, hlater, rfl, rfl⟩) rfl

theorem inExecutor (executor : Executor) :
    { d with executor := executor }.Called cancelledAnswer calls :=
  h.mono h.engaged (fun hworks => ⟨_, hworks.inExecutor executor⟩)
    (fun later hlater => ⟨later, hlater, rfl, rfl⟩) rfl

theorem detach (handle : LoadHandle K) :
    (d.detach cancelledAnswer handle).Called cancelledAnswer calls := by
  have hsame := d.detach_eq cancelledAnswer handle
  refine h.mono (h.engaged.detach _ handle) (fun hworks => hworks.leave handle) ?_ ?_
  · rw [hsame]
    exact fun later hlater => ⟨later, hlater, rfl, rfl⟩
  · rw [hsame]

theorem cancelAll : (d.cancelAll cancelledAnswer).Called cancelledAnswer calls := by
  have hsame := d.cancelAll_eq cancelledAnswer
  refine h.mono (h.engaged.cancelAll _) (fun hworks => ⟨_, hworks.cancelAll⟩) ?_ ?_
  · rw [hsame]
    exact fun later hlater => ⟨later, hlater, rfl, rfl⟩
  · rw [hsame]

theorem openGate (key : K) : (d.openGate key).Called cancelledAnswer calls := by
  refine h.mono (h.engaged.openGate key) (fun hworks => ⟨_, hworks.openGate key⟩)
    (fun later hlater => ?_) (by rw [openGate_frame])
  obtain ⟨task, htask, hfollows, hawaits⟩ := LoadTask.follows_of_mem_openGate none hlater
  exact ⟨task, htask, hfollows.handle_eq, hawaits⟩

/-- One more call of the loader is not that of a task that goes on, if that is of another
load. -/
theorem called_cons_iff {other : LoadTask K V} (hmem : other ∈ d.tasks ++ d.orphans)
    (hother : other.handle ≠ old.handle) :
    other.handle ∈ old.handle :: calls ↔ other.phase.awaitsCall = false := by
  rw [List.mem_cons, or_iff_right hother]
  exact h.called_iff other hmem

/-- A load that ends takes its task away, and may have made its call. -/
theorem finish (hmem : old ∈ d.tasks)
    (hcalls : calls' = calls ∨ calls' = old.handle :: calls ∧ old.phase.awaitsCall = true)
    (answer : ρ) : (d.finish old.handle answer).Called cancelledAnswer calls' := by
  have hfinished : (d.finish old.handle answer).Called cancelledAnswer calls := by
    refine h.mono (h.engaged.finish _ _) (fun hworks => ⟨_, hworks.finish hmem answer⟩)
      (fun later hlater => ?_) rfl
    exact ⟨later, (List.mem_filter.mp hlater).1, rfl, rfl⟩
  rcases hcalls with rfl | ⟨rfl, hawaits⟩
  · exact hfinished
  · obtain ⟨handles, started, hworks, hsubset, horphans⟩ := h.works
    refine ⟨hfinished.engaged, ⟨handles, started, hworks.finish hmem answer, ?_, horphans⟩,
      List.nodup_cons.mpr ⟨h.not_called (List.mem_append_left _ hmem) hawaits, h.nodup⟩,
      fun later hlater => hfinished.called_cons_iff hlater ?_, hfinished.apart, h.orphans_nodup⟩
    · exact List.cons_subset.mpr ⟨hworks.tasks_begun old hmem, hsubset⟩
    · rcases List.mem_append.mp hlater with hthere | horphan
      · exact fun hsame =>
          of_decide_eq_true (List.mem_filter.mp hthere).2 (congrArg LoadHandle.id hsame)
      · exact (h.apart later horphan old hmem).symm

/-- A task that is dropped may leave its job behind. -/
theorem abandon (id : Nat) (ofError : CacheError → ρ) :
    (d.abandon id ofError).Called cancelledAnswer calls := by
  rcases d.abandon_cases id ofError with heq | ⟨task, error, orphans, htask, hleaves, heq⟩
  · rwa [heq]
  · have hmem := (mem_of_task? htask).1
    have hfinished := h.finish hmem (.inl rfl) (ofError error)
    rw [heq]
    rcases hleaves with rfl | rfl
    · exact hfinished
    · obtain ⟨handles, started, hworks, hsubset, horphans⟩ := h.works
      refine ⟨hfinished.engaged,
        ⟨handles, started, (hworks.finish hmem _).withOrphans _, hsubset, ?_⟩, h.nodup, ?_, ?_, ?_⟩
      · refine List.forall_mem_append.mpr ⟨horphans, List.forall_mem_singleton.mpr ?_⟩
        exact hworks.tasks_begun task hmem
      · refine List.forall_mem_append.mpr ⟨fun later hlater => ?_, ?_⟩
        · exact hfinished.called_iff later (List.mem_append_left _ hlater)
        · refine List.forall_mem_append.mpr ⟨fun orphan horphan => ?_, ?_⟩
          · exact h.called_iff orphan (List.mem_append_right _ horphan)
          · exact List.forall_mem_singleton.mpr (h.called_iff task (List.mem_append_left _ hmem))
      · refine List.forall_mem_append.mpr ⟨hfinished.apart, List.forall_mem_singleton.mpr ?_⟩
        exact fun later hlater hsame =>
          of_decide_eq_true (List.mem_filter.mp hlater).2 (congrArg LoadHandle.id hsame)
      · rw [List.map_append]
        refine h.orphans_nodup.append (List.nodup_singleton _) ?_
        refine List.disjoint_singleton.mpr fun hsame => ?_
        obtain ⟨orphan, horphan, hid⟩ := List.mem_map.mp hsame
        exact h.apart orphan horphan task hmem (List.inj_on_of_nodup_map hworks.serves.ids_nodup
          (hworks.tasks_begun task hmem) (horphans orphan horphan) hid.symm)

/-- The job of a task that was dropped may make the call of its load. -/
theorem dropOrphan (hmem : old ∈ d.orphans)
    (hcalls : calls' = calls ∨ calls' = old.handle :: calls ∧ old.phase.awaitsCall = true) :
    (d.dropOrphan old.handle.id).Called cancelledAnswer calls' := by
  obtain ⟨handles, started, hworks, hsubset, horphans⟩ := h.works
  have hfewer : ∀ orphan ∈ (d.dropOrphan old.handle.id).orphans, orphan ∈ d.orphans :=
    fun orphan horphan => (List.mem_filter.mp horphan).1
  have hthere : ∀ later ∈ d.tasks ++ (d.dropOrphan old.handle.id).orphans,
      later ∈ d.tasks ++ d.orphans := fun later hlater =>
    List.mem_append.mpr ((List.mem_append.mp hlater).imp_right (hfewer later))
  have hnodup : ((d.dropOrphan old.handle.id).orphans.map (·.handle.id)).Nodup :=
    (List.filter_sublist.map _).nodup h.orphans_nodup
  rcases hcalls with rfl | ⟨rfl, hawaits⟩
  · exact ⟨h.engaged, ⟨handles, started, hworks.withOrphans _, hsubset,
      fun orphan horphan => horphans orphan (hfewer orphan horphan)⟩, h.nodup,
      fun later hlater => h.called_iff later (hthere later hlater),
      fun orphan horphan => h.apart orphan (hfewer orphan horphan), hnodup⟩
  · refine ⟨h.engaged, ⟨handles, started, hworks.withOrphans _, ?_,
      fun orphan horphan => horphans orphan (hfewer orphan horphan)⟩,
      List.nodup_cons.mpr ⟨h.not_called (List.mem_append_right _ hmem) hawaits, h.nodup⟩,
      fun later hlater => h.called_cons_iff (hthere later hlater) ?_,
      fun orphan horphan => h.apart orphan (hfewer orphan horphan), hnodup⟩
    · exact List.cons_subset.mpr ⟨horphans old hmem, hsubset⟩
    · rcases List.mem_append.mp hlater with htask | horphan
      · exact h.apart old hmem later htask
      · exact fun hsame =>
          of_decide_eq_true (List.mem_filter.mp horphan).2 (congrArg LoadHandle.id hsame)

/-- A task that goes on may have made the call of its load. -/
theorem setTask (hmem : old ∈ d.tasks) (hhandle : task.handle = old.handle)
    (htries : LoadTask.Tries loader old calls calls' task) (hloader : loader.isSome = true) :
    (d.setTask task).Called cancelledAnswer calls' := by
  obtain ⟨handles, started, hworks, hsubset, horphans⟩ := h.works
  have hthere : task.handle ∈ d.tasks.map (·.handle) := List.mem_map.mpr ⟨old, hmem, hhandle.symm⟩
  have hold : old ∈ d.tasks ++ d.orphans := List.mem_append_left _ hmem
  -- the other tasks are those of other loads
  have hothers : ∀ later ∈ (d.setTask task).tasks ++ d.orphans,
      later = task ∨ later ∈ d.tasks ++ d.orphans ∧ later.handle ≠ old.handle := by
    intro later hlater
    rcases List.mem_append.mp hlater with hset | horphan
    · obtain ⟨other, hother, rfl⟩ := List.mem_map.mp hset
      split
      · exact .inl rfl
      · rename_i hid
        exact .inr ⟨List.mem_append_left _ hother, fun hsame => hid (by rw [hsame, hhandle])⟩
    · exact .inr ⟨List.mem_append_right _ horphan, (h.apart later horphan old hmem).symm⟩
  have hengaged : (d.setTask task).Engaged := h.engaged.setTask (hhandle ▸ h.engaged old hmem)
  have hapart : ∀ orphan ∈ d.orphans, ∀ later ∈ (d.setTask task).tasks,
      later.handle ≠ orphan.handle := by
    intro orphan horphan later hlater
    obtain ⟨other, hother, rfl⟩ := List.mem_map.mp hlater
    split
    · exact hhandle ▸ h.apart orphan horphan old hmem
    · exact h.apart orphan horphan other hother
  cases htries with
  | quiet hcalls hsame =>
      subst hcalls
      refine ⟨hengaged, ⟨handles, started, hworks.setTask hthere, hsubset, horphans⟩, h.nodup, ?_,
        hapart, h.orphans_nodup⟩
      intro later hlater
      rcases hothers later hlater with rfl | ⟨hother, -⟩
      · rw [hhandle, hsame]
        exact h.called_iff old hold
      · exact h.called_iff later hother
  | called hcalls hbefore hafter =>
      subst hcalls
      refine ⟨hengaged, ⟨handles, started, hworks.setTask hthere, ?_, horphans⟩,
        List.nodup_cons.mpr ⟨h.not_called hold hbefore, h.nodup⟩, fun later hlater => ?_, hapart,
        h.orphans_nodup⟩
      · exact List.cons_subset.mpr ⟨hworks.tasks_begun old hmem, hsubset⟩
      · rcases hothers later hlater with rfl | ⟨hother, hne⟩
        · rw [hhandle, hafter]
          simp
        · exact h.called_cons_iff hother hne
  | spared hcalls hnone =>
      rw [hnone] at hloader
      exact absurd hloader Bool.false_ne_true

/-- The task of a load that begins has yet to call. -/
theorem begins {ofError : CacheError → ρ} {launch : Launch}
    (hbegins : d.Begins task ofError launch d')
    (hfree : d.coordinator.pending? task.handle.key = none)
    (hid : task.handle.id = d.coordinator.nextId) (hawaits : task.phase.awaitsCall = true) :
    d'.Called cancelledAnswer calls := by
  obtain ⟨handles, started, hworks, hsubset, horphans⟩ := h.works
  -- its number was not given before
  have hnew : task.handle ∉ started := fun hmem =>
    absurd hid (Nat.ne_of_lt (hworks.serves.id_lt _ hmem))
  have hworks' := hbegins.works hfree hid hworks
  have hengaged := hbegins.engaged hfree hid h.engaged
  cases hbegins with
  | hired launch executor =>
      refine ⟨hengaged, ⟨_, _, hworks', fun _ hmem => List.mem_cons_of_mem _ (hsubset hmem),
        fun orphan hmem => List.mem_cons_of_mem _ (horphans orphan hmem)⟩, h.nodup, ?_, ?_,
        h.orphans_nodup⟩
      · intro other hother
        rcases List.mem_append.mp hother with htask | horphan
        · rcases List.mem_append.mp htask with hmem | hlast
          · exact h.called_iff other (List.mem_append_left _ hmem)
          · rw [List.mem_singleton.mp hlast, hawaits]
            exact iff_of_false (fun hcalled => hnew (hsubset hcalled)) nofun
        · exact h.called_iff other (List.mem_append_right _ horphan)
      · intro orphan horphan
        refine List.forall_mem_append.mpr ⟨h.apart orphan horphan, ?_⟩
        exact List.forall_mem_singleton.mpr fun hsame => hnew (hsame ▸ horphans orphan horphan)
  | turnedAway executor =>
      exact ⟨hengaged, ⟨_, _, hworks', fun _ hmem => List.mem_cons_of_mem _ (hsubset hmem),
        fun orphan hmem => List.mem_cons_of_mem _ (horphans orphan hmem)⟩, h.nodup,
        h.called_iff, h.apart, h.orphans_nodup⟩

theorem request (key : K) (attributes : Attributes) (forced : Bool) (ofError : CacheError → ρ) :
    (d.request key attributes forced none ofError).2.Called cancelledAnswer calls := by
  rcases d.request_cases key attributes forced none ofError with
    ⟨load, hload, heq⟩ | ⟨-, -, heq⟩ | ⟨hfree, -, launch, d', hbegins, heq⟩
  · have hengaged := h.engaged.request key attributes forced none ofError
    rw [heq] at hengaged ⊢
    exact h.mono hengaged (fun hworks => ⟨_, hworks.join hload⟩)
      (fun later hlater => ⟨later, hlater, rfl, rfl⟩) rfl
  · rwa [heq]
  · rw [heq]
    exact h.begins hbegins hfree rfl rfl

end Called

/-! ## What goes on -/

/-- What can be told of a desk from an earlier one. -/
structure Continues (loader : Option (Loader K V)) (d d' : LoadDesk K V ρ) : Prop where
  nextId_le : d.coordinator.nextId ≤ d'.coordinator.nextId
  answers : d.coordinator.answers <:+ d'.coordinator.answers
  current : ∀ key id, id < d.coordinator.nextId → d'.coordinator.isCurrent key id = true →
    d.coordinator.isCurrent key id = true
  pursued : ∀ later ∈ d'.tasks, later.handle.id < d.coordinator.nextId →
    ∃ task ∈ d.tasks, later.Follows loader task
  /-- A job that nobody waits for was that of a task. -/
  orphaned : ∀ orphan ∈ d'.orphans, orphan.handle.id < d.coordinator.nextId →
    ∃ old ∈ d.tasks ++ d.orphans, old.handle = orphan.handle

namespace Continues

theorem refl (loader : Option (Loader K V)) (d : LoadDesk K V ρ) : Continues loader d d where
  nextId_le := Nat.le_refl _
  answers := List.suffix_rfl
  current _ _ _ hcurrent := hcurrent
  pursued later hlater _ := ⟨later, hlater, .refl loader later⟩
  orphaned orphan horphan _ := ⟨orphan, List.mem_append_right _ horphan, rfl⟩

theorem trans (h : Continues loader d d') (h' : Continues loader d' d'') :
    Continues loader d d'' where
  nextId_le := Nat.le_trans h.nextId_le h'.nextId_le
  answers := h.answers.trans h'.answers
  current key id hid hcurrent :=
    h.current key id hid (h'.current key id (Nat.lt_of_lt_of_le hid h.nextId_le) hcurrent)
  pursued last hlast hid := by
    have hlt := Nat.lt_of_lt_of_le hid h.nextId_le
    obtain ⟨later, hlater, hfollows⟩ := h'.pursued last hlast hlt
    rw [hfollows.handle_eq] at hid
    obtain ⟨task, htask, hbefore⟩ := h.pursued later hlater hid
    exact ⟨task, htask, hfollows.trans hbefore⟩
  orphaned orphan horphan hid := by
    have hlt := Nat.lt_of_lt_of_le hid h.nextId_le
    obtain ⟨later, hlater, hhandle⟩ := h'.orphaned orphan horphan hlt
    rw [← hhandle] at hid ⊢
    rcases List.mem_append.mp hlater with htask | hold
    · obtain ⟨task, hmem, hfollows⟩ := h.pursued later htask hid
      exact ⟨task, List.mem_append_left _ hmem, hfollows.handle_eq.symm⟩
    · exact h.orphaned later hold hid

/-- The answer of a load is final. -/
theorem answer?_eq (h : Continues loader d d') (hcalled : d'.Called cancelledAnswer calls)
    {id : Nat} {answer : ρ} (hanswer : d.coordinator.answer? id = some answer) :
    d'.coordinator.answer? id = some answer := by
  obtain ⟨handles, started, hworks, -⟩ := hcalled.works
  have hanswers := Enumerates.lookup hworks.serves.answers_nodup
  obtain ⟨before, after, hsplit, -⟩ := List.lookup_eq_some_iff.mp hanswer
  have hmem : (id, answer) ∈ d.coordinator.answers := by
    rw [hsplit]
    exact List.mem_append_right _ List.mem_cons_self
  exact (hanswers.mem_iff id answer).mp (h.answers.subset hmem)

end Continues

/-- No load begins, and all tasks are old ones. -/
theorem continues_of_winds (hwinds : d.Winds d')
    (htasks : ∀ later ∈ d'.tasks, ∃ task ∈ d.tasks, later.Follows loader task)
    (horphans : d'.orphans ⊆ d.tasks ++ d.orphans) : Continues loader d d' where
  nextId_le := Nat.le_of_eq hwinds.nextId_eq.symm
  answers := hwinds.proceeds.answers
  current key id _ := hwinds.proceeds.current key id
  pursued later hlater _ := htasks later hlater
  orphaned orphan horphan _ := ⟨orphan, horphans horphan, rfl⟩

theorem continues_of_subset (hwinds : d.Winds d') (htasks : d'.tasks ⊆ d.tasks)
    (horphans : d'.orphans ⊆ d.tasks ++ d.orphans) : Continues loader d d' :=
  continues_of_winds hwinds (fun later hlater => ⟨later, htasks hlater, .refl loader later⟩)
    horphans

theorem continues_inState (d : LoadDesk K V ρ) (state : Lifecycle) :
    Continues loader d { d with coordinator := { d.coordinator with lifecycle := state } } where
  nextId_le := Nat.le_refl _
  answers := List.suffix_rfl
  current _ _ _ hcurrent := hcurrent
  pursued later hlater _ := ⟨later, hlater, .refl loader later⟩
  orphaned orphan horphan _ := ⟨orphan, List.mem_append_right _ horphan, rfl⟩

theorem continues_setTask (hmem : old ∈ d.tasks) (hfollows : task.Follows loader old) :
    Continues loader d (d.setTask task) := by
  refine continues_of_winds (winds_setTask ?_) (fun later hlater => ?_)
    (List.subset_append_right _ _)
  · exact List.mem_map.mpr ⟨old, hmem, hfollows.handle_eq.symm⟩
  · obtain ⟨other, hother, rfl⟩ := List.mem_map.mp hlater
    split
    · exact ⟨old, hmem, hfollows⟩
    · exact ⟨other, hother, .refl loader other⟩

theorem continues_finish (d : LoadDesk K V ρ) (handle : LoadHandle K) (answer : ρ) :
    Continues loader d (d.finish handle answer) :=
  continues_of_subset (d.winds_finish handle answer) List.filter_sublist.subset
    (List.subset_append_right _ _)

theorem continues_abandon (d : LoadDesk K V ρ) (id : Nat) (ofError : CacheError → ρ) :
    Continues loader d (d.abandon id ofError) := by
  have hwinds := d.winds_abandon id ofError
  rcases d.abandon_cases id ofError with heq | ⟨task, error, orphans, htask, hleaves, heq⟩
  · rw [heq]
    exact .refl loader d
  · rw [heq] at hwinds ⊢
    refine continues_of_subset hwinds List.filter_sublist.subset ?_
    rcases hleaves with rfl | rfl
    · exact List.subset_append_right _ _
    · refine List.append_subset.mpr ⟨List.subset_append_right _ _, List.cons_subset.mpr ⟨?_, nofun⟩⟩
      exact List.mem_append_left _ (mem_of_task? htask).1

theorem continues_detach (d : LoadDesk K V ρ) (cancelledAnswer : ρ) (handle : LoadHandle K) :
    Continues loader d (d.detach cancelledAnswer handle) := by
  have hwinds := d.winds_detach cancelledAnswer handle
  rw [detach_eq] at hwinds ⊢
  exact continues_of_subset hwinds (List.Subset.refl _) (List.subset_append_right _ _)

theorem continues_cancelAll (d : LoadDesk K V ρ) (cancelledAnswer : ρ) :
    Continues loader d (d.cancelAll cancelledAnswer) := by
  have hwinds := d.winds_cancelAll cancelledAnswer
  rw [cancelAll_eq] at hwinds ⊢
  exact continues_of_subset hwinds (List.Subset.refl _) (List.subset_append_right _ _)

theorem continues_openGate (d : LoadDesk K V ρ) (key : K) :
    Continues loader d (d.openGate key) := by
  refine continues_of_winds (d.winds_openGate key) (fun later hlater => ?_) ?_
  · obtain ⟨task, htask, hfollows, -⟩ := LoadTask.follows_of_mem_openGate loader hlater
    exact ⟨task, htask, hfollows⟩
  · rw [openGate_frame]
    exact List.subset_append_right _ _

/-- A load that begins has a number that was not given before. -/
theorem Begins.continues {ofError : CacheError → ρ} {launch : Launch}
    (hbegins : d.Begins task ofError launch d')
    (hfree : d.coordinator.pending? task.handle.key = none)
    (hid : task.handle.id = d.coordinator.nextId) : Continues loader d d' := by
  have hbegun : ∀ key id, id < d.coordinator.nextId →
      (d.coordinator.begin task.handle.key).isCurrent key id = true →
      d.coordinator.isCurrent key id = true := by
    intro key id hlt hcurrent
    obtain ⟨load, hload, hload'⟩ := Coordinator.isCurrent_iff.mp hcurrent
    rw [Coordinator.pending?_begin hfree] at hload
    split at hload
    · rw [Option.some_inj] at hload
      rw [← hload'] at hlt
      rw [← hload] at hlt
      exact absurd hlt (Nat.lt_irrefl _)
    · exact Coordinator.isCurrent_iff.mpr ⟨load, hload, hload'⟩
  cases hbegins with
  | hired launch executor =>
      refine ⟨Nat.le_succ _, List.suffix_rfl, hbegun, fun later hlater hlt => ?_,
        fun orphan horphan _ => ⟨orphan, List.mem_append_right _ horphan, rfl⟩⟩
      rcases List.mem_append.mp hlater with hold | hnew
      · exact ⟨later, hold, .refl loader later⟩
      · rw [List.mem_singleton.mp hnew, hid] at hlt
        exact absurd hlt (Nat.lt_irrefl _)
  | turnedAway executor =>
      have hcomplete := Coordinator.proceeds_complete (d.coordinator.begin task.handle.key)
        task.handle.key task.handle.id (ofError .dropped)
      refine ⟨?_, hcomplete.answers,
        fun key id hlt hcurrent => hbegun key id hlt (hcomplete.current key id hcurrent),
        fun later hlater _ => ⟨later, hlater, .refl loader later⟩,
        fun orphan horphan _ => ⟨orphan, List.mem_append_right _ horphan, rfl⟩⟩
      show d.coordinator.nextId ≤ (Coordinator.complete _ _ _ _).nextId
      rw [Coordinator.nextId_complete]
      exact Nat.le_succ _

theorem continues_request (d : LoadDesk K V ρ) (key : K) (attributes : Attributes)
    (forced : Bool) (program : Option (LoadProgram V)) (ofError : CacheError → ρ) :
    Continues loader d (d.request key attributes forced program ofError).2 := by
  rcases d.request_cases key attributes forced program ofError with
    ⟨load, -, heq⟩ | ⟨-, -, heq⟩ | ⟨hfree, -, launch, d', hbegins, heq⟩
  · rw [heq]
    refine ⟨Nat.le_refl _, List.suffix_rfl, fun other id _ hcurrent => ?_,
      fun later hlater _ => ⟨later, hlater, .refl loader later⟩,
      fun orphan horphan _ => ⟨orphan, List.mem_append_right _ horphan, rfl⟩⟩
    rwa [Coordinator.isCurrent_recount] at hcurrent
  · rw [heq]
    exact .refl loader d
  · rw [heq]
    exact hbegins.continues hfree rfl

end LoadDesk

end BoundedCache
