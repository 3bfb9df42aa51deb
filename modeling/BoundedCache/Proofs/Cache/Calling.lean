import BoundedCache.Proofs.Cache.Acts
import BoundedCache.Proofs.Cache.Setting
import BoundedCache.Proofs.Cache.Turning

/-!
# No load calls the loader twice

Whatever happens to a cache with a loader, its desk shows who has called the loader (`Called`),
and what was to be told of its loads before can still be told (`Continues`).  Most acts leave
the tasks alone, or only drop some.  What is left is a turn, which may make the call of its own
load, and a request, whose new task has yet to call.
-/

namespace BoundedCache

namespace Cache

variable {K V : Type} [DecidableEq K] {c c' c'' d : Cache K V} {task old : LoadTask K V}

/-- The cache has a loader, and its desk shows who has called it. -/
structure Called (c : Cache K V) : Prop where
  loader : c.loader.isSome = true
  desk : c.desk.Called (.error .cancelled) c.loaderCalls

/-- The cache has the same loader, and its desk goes on from the earlier one. -/
structure Continues (c c' : Cache K V) : Prop where
  loader_eq : c'.loader = c.loader
  desk : c.desk.Continues c.loader c'.desk

theorem Continues.refl (c : Cache K V) : Continues c c := ⟨rfl, .refl _ _⟩

theorem Continues.trans (h : Continues c c') (h' : Continues c' c'') : Continues c c'' :=
  ⟨h'.loader_eq.trans h.loader_eq, h.desk.trans (h.loader_eq ▸ h'.desk)⟩

/-- The cache goes on, and if it showed who has called the loader, it still does. -/
def Keeps (c c' : Cache K V) : Prop := c.Called → c'.Called ∧ Continues c c'

theorem Keeps.trans (h : Keeps c c') (h' : Keeps c' c'') : Keeps c c'' := by
  intro hcalled
  obtain ⟨hnext, hcontinues⟩ := h hcalled
  obtain ⟨hlast, hcontinues'⟩ := h' hnext
  exact ⟨hlast, hcontinues.trans hcontinues'⟩

/-- Only the desk has changed. -/
theorem keeps_inDesk {desk : LoadDesk K V (Answer K V)}
    (hcalled : c.desk.Called (.error .cancelled) c.loaderCalls →
      desk.Called (.error .cancelled) c.loaderCalls)
    (hcontinues : c.desk.Continues c.loader desk) : Keeps c { c with desk := desk } :=
  fun h => ⟨⟨h.loader, hcalled h.desk⟩, ⟨rfl, hcontinues⟩⟩

/-- A start, a shutdown and a change between hooks leave the loads and the setting alone. -/
theorem SameLoads.keeps (h : SameLoads c c') (hsetting : SameSetting c c') : Keeps c c' := by
  intro hcalled
  obtain ⟨state, hdesk⟩ := h
  refine ⟨⟨?_, ?_⟩, ⟨hsetting.loader_eq, ?_⟩⟩
  · rw [hsetting.loader_eq]
    exact hcalled.loader
  · rw [hdesk, hsetting.loaderCalls_eq]
    exact hcalled.desk.inState state
  · rw [hdesk]
    exact c.desk.continues_inState state

theorem keeps_shutDownNow (c : Cache K V) : Keeps c c.shutDownNow.2 := by
  have hdown : Keeps c (c.setLifecycle c.lifecycle.shutDown.2) :=
    (c.sameLoads_setLifecycle _).keeps (c.sameSetting_setLifecycle _)
  exact hdown.trans (keeps_inDesk (fun h => h.cancelAll) (LoadDesk.continues_cancelAll _ _))

theorem keeps_release (c : Cache K V) (future : Future K V) : Keeps c (c.release future) := by
  cases future with
  | ready answer => exact fun h => ⟨h, .refl c⟩
  | load handle => exact keeps_inDesk (fun h => h.detach handle) (c.desk.continues_detach _ handle)

/-! ## The end of a load -/

section

variable [KeyText K]

theorem settle_value_eq (c : Cache K V) (task : LoadTask K V) (value : V) :
    let write := (c.measure countLoad).perform
      (.write c.expiration task.handle.key value task.attributes .loader)
    c.settle task (.value value) = write.2.finish task (.ok (some write.1.new)) := rfl

/-- However a load ends, its task goes and it has an answer, and the loader is not called. -/
theorem settle_desk (c : Cache K V) (task : LoadTask K V) (outcome : LoadOutcome V) :
    SameSetting c (c.settle task outcome) ∧ ∃ state answer, (c.settle task outcome).desk =
      LoadDesk.finish
        { c.desk with coordinator := { c.desk.coordinator with lifecycle := state } }
        task.handle answer := by
  cases outcome with
  | nothing => exact ⟨⟨rfl, rfl, rfl, rfl, rfl, rfl⟩, c.lifecycle, _, rfl⟩
  | error shown => exact ⟨⟨rfl, rfl, rfl, rfl, rfl, rfl⟩, c.lifecycle, _, rfl⟩
  | panic shown => exact ⟨⟨rfl, rfl, rfl, rfl, rfl, rfl⟩, c.lifecycle, _, rfl⟩
  | value value =>
      rw [settle_value_eq]
      generalize Change.write c.expiration task.handle.key value task.attributes .loader = change
      have hmeasured : SameSetting c (c.measure countLoad) := ⟨rfl, rfl, rfl, rfl, rfl, rfl⟩
      have hsetting := hmeasured.trans (steady_sameSetting.perform _ change)
      obtain ⟨state, hdesk⟩ := steady_sameLoads.perform (c.measure countLoad) change
      generalize (c.measure countLoad).perform change = write at hsetting hdesk ⊢
      refine ⟨hsetting.trans ⟨rfl, rfl, rfl, rfl, rfl, rfl⟩, state, .ok (some write.1.new), ?_⟩
      show write.2.desk.finish task.handle _ = _
      rw [hdesk]
      rfl

/-- The end of a load keeps what there was, whether or not the load has just called. -/
theorem Goes.keeps_settle {phase : Phase V} (h : Goes c old d { task with phase := phase })
    (outcome : LoadOutcome V) : Keeps c (d.settle task outcome) := by
  intro hcalled
  obtain ⟨hsetting, state, answer, hdesk⟩ := d.settle_desk task outcome
  have hhandle : task.handle = old.handle := h.follows.handle_eq
  have hcalls : d.loaderCalls = c.loaderCalls ∨
      d.loaderCalls = old.handle :: c.loaderCalls ∧ old.phase.awaitsCall = true := by
    cases h.tries with
    | quiet hcalls hsame => exact .inl hcalls
    | called hcalls hbefore hafter => exact .inr ⟨hcalls, hbefore⟩
    | spared hcalls hnone => exact .inl hcalls
  rw [h.desk_eq, hhandle] at hdesk
  have hloader := hsetting.loader_eq.trans h.loader_eq
  refine ⟨⟨hloader ▸ hcalled.loader, ?_⟩, ⟨hloader, ?_⟩⟩
  · rw [hdesk, hsetting.loaderCalls_eq]
    exact (hcalled.desk.inState state).finish h.mem hcalls answer
  · rw [hdesk]
    exact (c.desk.continues_inState state).trans (LoadDesk.continues_finish _ _ _)

/-! ## The call of a load -/

theorem loaderCalls_settle (c : Cache K V) (task : LoadTask K V) (outcome : LoadOutcome V) :
    (c.settle task outcome).loaderCalls = c.loaderCalls :=
  (c.settle_desk task outcome).1.loaderCalls_eq

/-- Once there is a program, the loader is not called again. -/
theorem loaderCalls_proceed (c : Cache K V) (task : LoadTask K V) (program : LoadProgram V) :
    (c.proceed task program).loaderCalls = c.loaderCalls := by
  unfold proceed
  dsimp only
  split
  · exact c.loaderCalls_settle _ _
  · rfl
  · unfold submit LoadDesk.submit
    cases c.desk.executor.blocking with
    | queue => rfl
    | inline => exact c.loaderCalls_settle _ _
    | reject => exact c.loaderCalls_settle _ _
    | drop => exact c.loaderCalls_settle _ _

end

section

variable {loader : Loader K V}

theorem loaderCalls_doWork (hloader : c.loader = some loader) :
    (c.doWork task .callLoader).2.loaderCalls = task.handle :: c.loaderCalls := by
  rw [doWork, hloader]
  rfl

/-- So does the job of a task that was dropped. -/
theorem Called.calls_of_orphan [KeyText K] (h : c.Called) (horphan : task ∈ c.desk.orphans)
    (hlive : c.desk.coordinator.isCancelled task.handle.id = false)
    (hloader : c.loader = some loader) (hphase : task.phase = .onJob .callLoader) :
    (c.runTicket (.job task.handle.id)).loaderCalls = task.handle :: c.loaderCalls := by
  obtain ⟨hnone, hthere⟩ := h.desk.orphan?_eq horphan
  have hjob : c.desk.job? task.handle.id = some (task, .callLoader) := by
    rw [LoadDesk.job?, hlive, hnone, hthere]
    simp [hphase]
  rw [runTicket, runJob, hjob]
  exact loaderCalls_doWork hloader

variable (h : c.Called) (hmem : task ∈ c.desk.tasks)
  (hlive : c.desk.coordinator.isCancelled task.handle.id = false)
include h hmem hlive

theorem Called.poll?_eq (hphase : task.phase = .fresh none) :
    c.desk.poll? task.handle.id = some (.begin task none) := by
  obtain ⟨handles, started, hworks, -⟩ := h.desk.works
  rw [LoadDesk.poll?, hworks.task?_eq hmem]
  simp [hlive, hphase]

theorem Called.job?_eq (hphase : task.phase = .onJob .callLoader) :
    c.desk.job? task.handle.id = some (task, .callLoader) := by
  obtain ⟨handles, started, hworks, -⟩ := h.desk.works
  rw [LoadDesk.job?, hlive, hworks.task?_eq hmem]
  simp [hphase]

variable [KeyText K] (hloader : c.loader = some loader)
include hloader

/-- A task that runs for the first time calls the loader, if that is done where it runs. -/
theorem Called.calls_of_fresh (hphase : task.phase = .fresh none)
    (hplace : loader.blocking = false ∨ c.desk.executor.blocking = .inline) :
    (c.runTicket (.task task.handle.id)).loaderCalls = task.handle :: c.loaderCalls := by
  rw [runTicket, pollTask, h.poll?_eq hmem hlive hphase]
  dsimp only
  rw [hloader]
  dsimp only
  cases hblocking : loader.blocking with
  | false =>
      rw [if_neg Bool.false_ne_true, loaderCalls_proceed]
      rfl
  | true =>
      have hinline := hplace.resolve_left (hblocking.symm ▸ nofun)
      rw [if_pos rfl, submit, LoadDesk.submit, hinline]
      exact (loaderCalls_settle _ _ _).trans (loaderCalls_doWork hloader)

/-- If the loader blocks, a job is to call it, unless the executor refuses that. -/
theorem Called.hands_over (hphase : task.phase = .fresh none) (hblocking : loader.blocking = true)
    (hqueue : c.desk.executor.blocking = .queue) :
    let c' := c.runTicket (.task task.handle.id)
    { task with phase := .onJob .callLoader } ∈ c'.desk.tasks ∧
      .job task.handle.id ∈ c'.desk.executor.queue ∧ c'.loaderCalls = c.loaderCalls := by
  dsimp only
  rw [runTicket, pollTask, h.poll?_eq hmem hlive hphase]
  dsimp only
  rw [hloader]
  dsimp only
  rw [if_pos hblocking, submit, LoadDesk.submit, hqueue]
  refine ⟨List.mem_map.mpr ⟨task, hmem, if_pos rfl⟩, ?_, rfl⟩
  show _ ∈ (c.desk.executor.wake (.job task.handle.id)).queue
  unfold Executor.wake
  split
  · assumption
  · exact List.mem_append_right _ (List.mem_singleton.mpr rfl)

/-- The job then does so. -/
theorem Called.calls_of_job (hphase : task.phase = .onJob .callLoader) :
    (c.runTicket (.job task.handle.id)).loaderCalls = task.handle :: c.loaderCalls := by
  rw [runTicket, runJob, h.job?_eq hmem hlive hphase]
  exact loaderCalls_doWork hloader

end

section

variable [KeyText K]

/-! ## Turns and requests -/

theorem Turn.keeps {ticket : Ticket} (h : Turn c ticket c') : Keeps c c' := by
  cases h with
  | idle hidle => exact fun hcalled => ⟨hcalled, .refl c⟩
  | aborted hmem hid hcancelled =>
      exact keeps_inDesk (fun h => h.finish hmem (.inl rfl) _) (c.desk.continues_finish _ _)
  | @waits old task d h hid executor =>
      intro hcalled
      have hset := hcalled.desk.setTask h.mem h.follows.handle_eq h.tries hcalled.loader
      rw [← h.desk_eq] at hset
      refine ⟨⟨h.loader_eq ▸ hcalled.loader, hset.inExecutor executor⟩, ⟨h.loader_eq, ?_⟩⟩
      show c.desk.Continues c.loader { d.desk.setTask task with executor := executor }
      rw [h.desk_eq]
      exact (LoadDesk.continues_setTask h.mem h.follows).trans
        (LoadDesk.continues_of_subset (LoadDesk.winds_inExecutor _ executor) (List.Subset.refl _)
          (List.subset_append_right _ _))
  | ends h hid => exact h.keeps_settle _
  | refused h hid hblocking => exact h.keeps_settle _
  | @late orphan d h hid hlive =>
      intro hcalled
      have hdone := hcalled.desk.dropOrphan h.mem h.calls
      rw [← h.desk_eq] at hdone
      refine ⟨⟨h.loader_eq ▸ hcalled.loader, hdone⟩, ⟨h.loader_eq, ?_⟩⟩
      show c.desk.Continues c.loader (d.desk.dropOrphan orphan.handle.id)
      rw [h.desk_eq]
      exact LoadDesk.continues_of_subset (LoadDesk.winds_withOrphans _ _) (List.Subset.refl _)
        (List.Subset.trans List.filter_sublist.subset (List.subset_append_right _ _))

theorem keeps_runTicket (c : Cache K V) (ticket : Ticket) : Keeps c (c.runTicket ticket) :=
  fun hcalled => (turn_runTicket hcalled.desk.engaged ticket).keeps hcalled

theorem keeps_requestLoad (c : Cache K V) (key : K) (attributes : Attributes) (forced : Bool) :
    Keeps c (c.requestLoad key attributes forced).2 := by
  have hrequest : Keeps c
      { c with desk := (c.desk.request key attributes forced none .error).2 } :=
    keeps_inDesk (fun h => h.request key attributes forced .error)
      (c.desk.continues_request key attributes forced none .error)
  rcases c.requestLoad_cases key attributes forced with heq | heq | ⟨id, heq⟩
  · rw [heq]
    exact fun hcalled => ⟨hcalled, .refl c⟩
  · rw [heq]
    exact hrequest
  · rw [heq]
    exact hrequest.trans (keeps_runTicket _ (.task id))

theorem Act.keeps (h : Act c c') : Keeps c c' := by
  cases h with
  | run strict => exact (c.sameLoads_running strict).keeps (c.sameSetting_running strict)
  | shutDown => exact (steady_sameLoads.shutDown c).keeps (steady_sameSetting.shutDown c)
  | shutDownNow => exact c.keeps_shutDownNow
  | perform change =>
      exact (steady_sameLoads.perform c change).keeps (steady_sameSetting.perform c change)
  | request key attributes forced => exact c.keeps_requestLoad key attributes forced
  | turn ticket => exact c.keeps_runTicket ticket
  | release future => exact c.keeps_release future
  | openGate key => exact keeps_inDesk (fun h => h.openGate key) (c.desk.continues_openGate key)
  | abandon id => exact keeps_inDesk (fun h => h.abandon id _) (c.desk.continues_abandon id _)
  | schedule executor =>
      exact keeps_inDesk (fun h => h.inExecutor executor)
        (LoadDesk.continues_of_subset (c.desk.winds_inExecutor executor) (List.Subset.refl _)
          (List.subset_append_right _ _))
  | passTime clock elapsed sweeper =>
      exact fun hcalled => ⟨⟨hcalled.loader, hcalled.desk⟩, ⟨rfl, .refl _ _⟩⟩

/-- Whatever happens to a cache, it shows who has called the loader, and goes on. -/
theorem Acts.keeps_called (h : Acts c c') : Keeps c c' := by
  induction h with
  | refl => exact fun hcalled => ⟨hcalled, .refl c⟩
  | tail _ hlast ih => exact ih.trans hlast.keeps

end

end Cache

end BoundedCache
