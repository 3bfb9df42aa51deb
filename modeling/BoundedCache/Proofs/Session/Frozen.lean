import BoundedCache.Proofs.Cache.Settling
import BoundedCache.Proofs.Session.Termination

/-!
# A session after its cache was shut down

Every state of a session whose cache is shut down, or later, is closed.  From then on no
request does more than let loads end, and the sweeper stops at its next turn.  What else may
come is left to the executor: when it gives its turns to loads that were pending, these may
find their values and write them.  Nothing else is ever written, and no load begins
(`live_frozen`).
-/

namespace BoundedCache

theorem Builder.engaged_build {K V : Type} [DecidableEq K] {b : Builder K V} {c : Cache K V}
    (h : b.build = .ok c) : c.desk.Engaged := by
  obtain ⟨executor, hdesk⟩ := desk_build h
  rw [hdesk]
  exact LoadDesk.engaged_new executor

/-- Whether answering a request may give turns to tasks and jobs, also if the cache is shut
down. -/
def Request.givesTurns {K V : Type} : Request K V → Bool
  | .await _ | .run _ | .sleep _ | .terminatesWithin _ => true
  | _ => false

namespace Session

variable {K V : Type} [DecidableEq K] {s : Session K V}

/-! ## Futures -/

theorem poll_frozen (s : Session K V) (handle : Nat) :
    Cache.Frozen s.cache (s.poll handle).2.cache := by
  obtain ⟨future, heq⟩ := s.poll_cache handle
  rw [heq]
  exact Cache.frozen_release _ future

theorem drop_frozen (s : Session K V) (handle : Nat) :
    Cache.Frozen s.cache (s.drop handle).cache := by
  obtain ⟨future, heq⟩ := s.drop_cache handle
  rw [heq]
  exact Cache.frozen_release _ future

theorem take_frozen (s : Session K V) (handle : Nat) :
    Cache.Frozen s.cache (s.take handle).2.cache := by
  obtain ⟨future, heq⟩ := s.take_cache handle
  rw [heq]
  exact Cache.frozen_release _ future

variable [KeyText K]

theorem await_settles (h : s.cache.Closed) (handle : Nat) :
    ∃ merged, Cache.Settles s.cache merged (s.await handle).2.cache := by
  have hpoll := s.poll_frozen handle
  unfold await
  split
  · rename_i s' heq
    rw [heq] at hpoll
    have hpolled : s'.cache.Closed := hpoll.closed h
    obtain ⟨merged, hidle⟩ := hpolled.settles_runIdle
    have hagain := poll_frozen { s' with cache := s'.cache.runIdle } handle
    exact hpoll.settles.andThen (hidle.andThen ⟨[], hagain.settles⟩)
  · exact ⟨[], hpoll.settles⟩

/-! ## Requests -/

/-- What is asked of a closed cache changes nothing that it holds. -/
theorem step_frozen (h : s.cache.Closed) {request : Request K V}
    (hturnless : request.givesTurns = false) :
    Cache.Frozen s.cache (s.step request).2.cache := by
  have hwhen {α : Type} (operation : Cache K V → α × Cache K V) :
      Cache.Frozen s.cache (s.cache.whenRunning operation).2 := by
    rw [h.whenRunning_eq]
    exact .refl _
  have hif {α : Type} (idle : α) (operation : Cache K V → α × Cache K V) :
      Cache.Frozen s.cache (s.cache.ifRunning idle operation).2 := by
    rw [h.ifRunning_eq]
    exact .refl _
  have hsame : ∀ {c : Cache K V}, c = s.cache → Cache.Frozen s.cache c := by
    rintro c rfl
    exact .refl _
  cases request with
  | start => exact hwhen _
  | getIfPresent key => exact hwhen _
  | peek key => exact hif _ _
  | contains key => exact hif _ _
  | put key value attributes => exact hwhen _
  | putIfAbsent key value => exact hwhen _
  | putAll pairs => exact hwhen _
  | replace key value => exact hwhen _
  | remove key => exact hwhen _
  | removeAll keys => exact hwhen _
  | clear => exact hif _ _
  | evict => exact hif _ _
  | trim maxEntries => exact hif _ _
  | purge => exact hif _ _
  | resize maxEntries maxVolume => exact hif _ _
  | shutDown => exact hsame (congrArg Prod.snd h.shutDown_eq)
  | shutDownNow => exact h.frozen_shutDownNow
  | get key attributes => exact hsame (congrArg Prod.snd (h.get_eq key attributes))
  | load key attributes => exact hsame (congrArg Prod.snd (h.load_eq key attributes))
  | forceLoad key => exact hsame (congrArg Prod.snd (h.forceLoad_eq key))
  | loadAll keys => exact hsame (h.loadAll_eq keys)
  | getAndWait key => exact hsame (congrArg Prod.snd (h.getAndWait_eq key))
  | take handle => exact s.take_frozen handle
  | poll handle => exact s.poll_frozen handle
  | pollAndKeep handle => exact hsame (s.pollAndKeep_cache handle)
  | drop handle => exact s.drop_frozen handle
  | openGate key => exact s.cache.frozen_openGate key
  | abandon load => exact s.cache.frozen_abandon load
  | treat spawning blocking => exact s.cache.frozen_inExecutor _
  | sweep => exact h.frozen_sweep.1
  | advance d => exact s.cache.frozen_inTime _ s.cache.elapsed s.cache.sweeper
  | setClock now => exact s.cache.frozen_inTime now s.cache.elapsed s.cache.sweeper
  | _ => exact absurd hturnless.symm Bool.false_ne_true

theorem step_settles (h : s.cache.Closed) (request : Request K V) :
    ∃ merged, Cache.Settles s.cache merged (s.step request).2.cache := by
  cases hturns : request.givesTurns with
  | false => exact ⟨[], (step_frozen h hturns).settles⟩
  | true =>
      cases request with
      | await handle => exact await_settles h handle
      | run count =>
          cases count with
          | none => exact h.settles_runIdle
          | some count => exact Cache.Closed.settles_runQueue count h
      | sleep d => exact h.settles_sleep d
      | terminatesWithin d => exact h.settles_terminatesWithin d
      | _ => exact absurd hturns Bool.false_ne_true

theorem happen_settles (h : s.cache.Closed) (happening : Happening K V) :
    ∃ merged, Cache.Settles s.cache merged (s.happen happening).cache := by
  cases happening with
  | request request => exact step_settles h request
  | turn ticket => exact h.settles_runTicket ticket

/-- Whatever happens later, a closed cache settles. -/
theorem live_settles (h : s.cache.Closed) (later : List (Happening K V)) :
    ∃ merged, Cache.Settles s.cache merged (s.live later).cache := by
  induction later generalizing s with
  | nil => exact ⟨[], (Cache.Frozen.refl _).settles⟩
  | cons happening rest ih =>
      obtain ⟨merged, hfirst⟩ := happen_settles h happening
      have hclosed : (s.happen happening).cache.Closed := hfirst.closed h
      exact hfirst.andThen (ih hclosed)

/-! ## Shut down -/

variable {b : Builder K V} {c : Cache K V}

/-- Between calls, a cache that is shut down is closed. -/
theorem live_closed (hbuild : b.build = .ok c) (before : List (Happening K V))
    (hdown : (live ⟨c, []⟩ before).cache.lifecycle.isDown = true) :
    (live ⟨c, []⟩ before).cache.Closed := by
  have hmoves := live_moves ⟨c, []⟩ before
  exact ⟨hdown, hmoves.leads.atRest (Builder.atRest_build hbuild),
    hmoves.engaged (Builder.engaged_build hbuild)⟩

/-- Once the cache of a session is shut down, no request changes the entries, their order, the
limits or the statistics, calls a hook or a listener, or begins a load; the sweeper stops at
its next turn; and all that is ever written later are the values of loads that were pending. -/
theorem live_frozen (hbuild : b.build = .ok c) (before : List (Happening K V))
    (hdown : (live ⟨c, []⟩ before).cache.lifecycle.isDown = true) :
    let s := live ⟨c, []⟩ before
    (∀ request, request.givesTurns = false → Cache.Frozen s.cache (s.step request).2.cache) ∧
      s.cache.sweep.sweeper = none ∧
      ∀ later, ∃ merged, Cache.Settles s.cache merged (s.live later).cache := by
  have hclosed := live_closed hbuild before hdown
  exact ⟨fun request hturnless => step_frozen hclosed hturnless, hclosed.frozen_sweep.2,
    fun later => live_settles hclosed later⟩

/-- The theorem for a cache that is shut down while a load is pending: an entry stays although
everything is to be removed, the sweeper stops, and the load writes its value. -/
theorem live_frozen_loading :
    let b : Builder String Nat :=
      { executor := some {}, sweepInterval := some (.ofMillis 1)
        loader := some ⟨false, fun _ _ _ => .finish (.value 1)⟩ }
    ∃ c, b.build = .ok c ∧
      let s := live ⟨c, []⟩
        [.request (.put "b" 2 {}), .request (.forceLoad "a"), .request .shutDown]
      s.cache.sweeper.isSome = true ∧ s.cache.sweep.sweeper = none ∧
        (s.step .clear).2.cache.store.keys = ["b"] ∧
        (s.live [.turn (.task 0)]).cache.store.keys = ["b", "a"] ∧
        ∃ merged, merged ≠ [] ∧ Cache.Settles s.cache merged (s.live [.turn (.task 0)]).cache := by
  have hfrozen := live_frozen (K := String) (V := Nat) (b := {
      executor := some {}
      sweepInterval := some (.ofMillis 1)
      loader := some ⟨false, fun _ _ _ => .finish (.value 1)⟩ }) rfl
    [.request (.put "b" 2 {}), .request (.forceLoad "a"), .request .shutDown] (by decide +kernel)
  have hclear := (hfrozen.1 .clear rfl).store_eq
  obtain ⟨merged, hsettles⟩ := hfrozen.2.2 [.turn (.task 0)]
  refine ⟨_, rfl, by decide +kernel, hfrozen.2.1, ?_, by decide +kernel, merged, ?_, hsettles⟩
  · rw [hclear]
    decide +kernel
  · rintro rfl
    have hsame := congrArg Store.size hsettles.merges
    exact absurd hsame (by decide +kernel)

end Session

end BoundedCache
