import BoundedCache.Proofs.Cache.Landing
import BoundedCache.Proofs.Session.Termination

/-!
# What a cache does about its loads

Whatever users ask of a cache with a loader, and in whatever order the executor gives its
turns, the cache goes about its loads in one way (`Loads`).  A read that finds a live entry asks
for no load; every other read, and every forced load, joins the load of its key or begins one.
A load calls the loader when its task first runs, and never again.  If it is still pending when
there is a value, that is written, once; if there is none, nothing is.  A task that waits for a
blocking loader may be dropped.  Then the load is over, and the loader, which is called all the
same, finds its value for nobody.

What a load has come to is final (`Outlasts`): its answer stays, so all who wait for it get the
same one, and its task goes on heading for what it was heading for.
-/

namespace BoundedCache

namespace Cache

variable {K V : Type} [DecidableEq K] [KeyText K] {c d : Cache K V} {loader : Loader K V}

/-- How a cache goes about its loads. -/
structure Loads (c : Cache K V) (loader : Loader K V) : Prop where
  loader_eq : c.loader = some loader
  /-- A load that is pending has a task. -/
  staffed : ∀ handle : LoadHandle K,
    c.desk.coordinator.isCurrent handle.key handle.id = true →
      ∃ task ∈ c.desk.tasks, task.handle = handle
  begun : ∀ task ∈ c.desk.tasks, task.handle.id < c.desk.coordinator.nextId
  /-- A load whose task the executor has dropped is over. -/
  ended : ∀ task ∈ c.desk.orphans,
    c.desk.coordinator.isCurrent task.handle.key task.handle.id = false
  /-- No load has called the loader twice, and those that have are past it. -/
  calls_nodup : (c.loaderCalls.map (·.id)).Nodup
  called_iff : ∀ task ∈ c.desk.tasks ++ c.desk.orphans,
    task.handle ∈ c.loaderCalls ↔ task.phase.awaitsCall = false
  /-- A task that first runs calls the loader, or hands that over to a job, which does so. -/
  calls : ∀ task ∈ c.desk.tasks, task.phase = .fresh none →
    c.desk.coordinator.isCancelled task.handle.id = false →
    (loader.blocking = false ∨ c.desk.executor.blocking = .inline) →
    (c.runTicket (.task task.handle.id)).loaderCalls = task.handle :: c.loaderCalls
  hands_over : ∀ task ∈ c.desk.tasks, task.phase = .fresh none →
    c.desk.coordinator.isCancelled task.handle.id = false →
    loader.blocking = true → c.desk.executor.blocking = .queue →
    let c' := c.runTicket (.task task.handle.id)
    { task with phase := .onJob .callLoader } ∈ c'.desk.tasks ∧
      .job task.handle.id ∈ c'.desk.executor.queue ∧ c'.loaderCalls = c.loaderCalls
  job_calls : ∀ task ∈ c.desk.tasks, task.phase = .onJob .callLoader →
    c.desk.coordinator.isCancelled task.handle.id = false →
    (c.runTicket (.job task.handle.id)).loaderCalls = task.handle :: c.loaderCalls
  /-- So does a job whose task was dropped, unless the load was cancelled before. -/
  orphan_calls : ∀ task ∈ c.desk.orphans, task.phase = .onJob .callLoader →
    c.desk.coordinator.isCancelled task.handle.id = false →
    (c.runTicket (.job task.handle.id)).loaderCalls = task.handle :: c.loaderCalls
  /-- A cache that is ready starts, and goes on as one that runs. -/
  starts : ∀ d, c.running true = (.ok true, d) → d.lifecycle = .running ∧
    ∀ key attributes, c.get key attributes = d.get key attributes ∧
      c.load key attributes = d.load key attributes ∧ c.forceLoad key = d.forceLoad key
  get_of_found : c.lifecycle = .running → ∀ key attributes entry,
    c.found .get key = some entry →
      (c.get key attributes).1 = .ready (.ok (some (entry.access c.clock))) ∧
        Undisturbed c (c.get key attributes).2
  get_of_none : c.lifecycle = .running → ∀ key attributes, c.found .get key = none →
    ∃ read, Undisturbed c read ∧ Asked read key attributes false (c.get key attributes)
  load_of_live : c.lifecycle = .running → ∀ key attributes entry, c.live? key = some entry →
    c.load key attributes = (.ready (.ok (some entry)), c)
  load_of_none : c.lifecycle = .running → ∀ key attributes, c.live? key = none →
    Asked c key attributes false (c.load key attributes)
  forceLoad : c.lifecycle = .running → ∀ key, Asked c key {} true (c.forceLoad key)
  turn : ∀ ticket, Fares c ticket (c.runTicket ticket)

theorem Called.loads (h : c.Called) (hloader : c.loader = some loader) : c.Loads loader where
  loader_eq := hloader
  staffed _ hcurrent := h.desk.exists_task hcurrent
  begun _ hmem := h.desk.id_lt hmem
  ended _ horphan := h.desk.not_isCurrent_of_orphan horphan
  calls_nodup := h.desk.ids_nodup
  called_iff := h.desk.called_iff
  calls _ hmem hphase hlive hplace := h.calls_of_fresh hmem hlive hloader hphase hplace
  hands_over _ hmem hphase hlive hblocking hqueue :=
    h.hands_over hmem hlive hloader hphase hblocking hqueue
  job_calls _ hmem hphase hlive := h.calls_of_job hmem hlive hloader hphase
  orphan_calls _ horphan hphase hlive := h.calls_of_orphan horphan hlive hloader hphase
  starts _ hstart := ⟨running_of_started hstart, asks_of_started hstart⟩
  get_of_found hrunning _ attributes _ hfound := Cache.get_of_found hrunning hfound attributes
  get_of_none hrunning _ attributes hnone := asked_get hrunning h.loader hnone attributes
  load_of_live hrunning _ attributes _ hlive := Cache.load_of_live hrunning hlive attributes
  load_of_none hrunning _ attributes hnone := asked_load hrunning h.loader hnone attributes
  forceLoad hrunning key := asked_forceLoad hrunning h.loader key
  turn ticket := (turn_runTicket h.desk.engaged ticket).fares

/-- What a load has come to in the one cache is not undone in the other. -/
structure Outlasts (c d : Cache K V) : Prop extends Continues c d where
  answered : ∀ handle answer, c.answer? (.load handle) = some answer →
    d.answer? (.load handle) = some answer ∧
      d.desk.coordinator.isCurrent handle.key handle.id = false

theorem Acts.outlasts (h : Acts c d) (hcalled : c.Called) : Outlasts c d := by
  obtain ⟨hlater, hcontinues⟩ := h.keeps_called hcalled
  refine ⟨hcontinues, fun handle answer hanswer => ?_⟩
  have hstays := hcontinues.desk.answer?_eq hlater.desk hanswer
  exact ⟨hstays, hlater.desk.not_isCurrent hstays handle.key⟩

end Cache

namespace Builder

variable {K V : Type} [DecidableEq K] {b : Builder K V} {c : Cache K V}

theorem called_build (h : b.build = .ok c) (hloader : b.loader.isSome = true) :
    c.Called ∧ c.loader = b.loader := by
  obtain ⟨executor, -, rfl⟩ := eq_of_build h
  exact ⟨⟨hloader, LoadDesk.called_new executor _⟩, rfl⟩

end Builder

namespace Session

variable {K V : Type} [DecidableEq K] [KeyText K] {b : Builder K V} {c : Cache K V}
  {loader : Loader K V}

/-- Whatever happens to a cache with a loader, it goes about its loads in one way, and what a load
has come to is not undone. -/
theorem live_loads (hbuild : b.build = .ok c) (hloader : b.loader = some loader) :
    (∀ happenings, Cache.Acts c (live ⟨c, []⟩ happenings).cache) ∧
      ∀ d, Cache.Acts c d → d.Loads loader ∧ ∀ e, Cache.Acts d e → d.Outlasts e := by
  obtain ⟨hcalled, hsame⟩ := Builder.called_build hbuild (by rw [hloader]; rfl)
  refine ⟨live_acts ⟨c, []⟩, fun d hacts => ?_⟩
  obtain ⟨hlater, hcontinues⟩ := hacts.keeps_called hcalled
  have hthere : d.loader = some loader := hcontinues.loader_eq.trans (hsame.trans hloader)
  exact ⟨hlater.loads hthere, fun e hrest => hrest.outlasts hlater⟩

/-- The theorem for a forced load of an entry that has been read.  The loader makes the value
larger and waits at a gate; what lands then has that size, and the reads of the old entry. -/
theorem live_loads_forced :
    let loader : Loader String Nat :=
      ⟨false, fun _ _ context => .setAttributes { context.attributes with size := 2 }
        (.awaitGate (.finish (.value 7)))⟩
    let b : Builder String Nat := { executor := some {}, loader := some loader }
    ∃ c, b.build = .ok c ∧
      let s := live ⟨c, []⟩
        [.request (.put "a" 1 {}), .request (.getIfPresent "a"), .request (.setClock 5),
          .request (.forceLoad "a"), .turn (.task 0), .request (.openGate "a")]
      let landed := s.cache.runTicket (.task 0)
      s.cache.Loads loader ∧ s.cache.Outlasts landed ∧
        (landed.answer? (.load ⟨"a", 0⟩)).bind Except.toOption = some (some
          { key := "a", value := 7, created := 0, accessed := 0, updated := 5, expires := none
            hits := 1, cost := {}, size := 2, version := 2 }) := by
  intro loader b
  obtain ⟨hlives, hloads⟩ := live_loads (b := b) rfl rfl
  obtain ⟨hbefore, hlater⟩ := hloads _ (hlives
    [.request (.put "a" 1 {}), .request (.getIfPresent "a"), .request (.setClock 5),
      .request (.forceLoad "a"), .turn (.task 0), .request (.openGate "a")])
  exact ⟨_, rfl, hbefore, hlater _ (Cache.Act.turn (.task 0)).acts, by decide +kernel⟩

/-- The executor drops the task that waits for a blocking loader.  The load is over, and the loader
is called all the same. -/
example :
    let b : Builder String Nat :=
      { executor := some {}, loader := some ⟨true, fun _ _ _ => .finish (.value 7)⟩ }
    ∃ c, b.build = .ok c ∧
      let s := live ⟨c, []⟩ [.request (.load "a" {}), .turn (.task 0), .request (.abandon 0)]
      let late := s.cache.runTicket (.job 0)
      s.cache.loaderCalls = [] ∧ late.loaderCalls = [⟨"a", 0⟩] ∧ late.store.size = 0 ∧
        s.cache.desk.coordinator.size = 0 :=
  ⟨_, rfl, by decide +kernel⟩

/-- A loaded value that can never fit takes the place of an entry that has been read.  Its waiters
are handed an entry without that read, and with the time of the load as its last access. -/
theorem landed_unread :
    let b : Builder String Nat :=
      { executor := some {}, maxVolume := 5
        loader := some ⟨false, fun _ _ _ =>
          .setAttributes { size := 9 } (.finish (.value 7))⟩ }
    ∃ c, b.build = .ok c ∧
      let s := live ⟨c, []⟩
        [.request (.put "a" 1 {}), .request (.getIfPresent "a"), .request (.setClock 5),
          .request (.forceLoad "a")]
      let landed := s.cache.runTicket (.task 0)
      s.cache.store.get? "a" = some
          { key := "a", value := 1, created := 0, accessed := 0, updated := 0, expires := none
            hits := 1, cost := {}, size := 1, version := 1 } ∧
        (landed.answer? (.load ⟨"a", 0⟩)).bind Except.toOption = some (some
          { key := "a", value := 7, created := 0, accessed := 5, updated := 5, expires := none
            hits := 0, cost := {}, size := 9, version := 2 }) :=
  ⟨_, rfl, by decide +kernel, by decide +kernel⟩

end Session

end BoundedCache
