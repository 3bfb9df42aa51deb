import BoundedCache.Proofs.Cache.Draining
import BoundedCache.Proofs.Load.Winding

/-!
# A cache that is shut down turns everything away

Every operation first asks whether the cache runs.  A cache that is shut down, or later,
answers no: a strict operation gets an error, any other its idle answer, and all that may
happen is that the cache drains (`whenRunning_of_down`, `ifRunning_of_down`).

Between calls it has drained already.  Then the cache is `Closed`, and an operation leaves
it what it is, in every respect.  That goes for what hooks ask for as well
(`Closed.obeyWith_eq`), so that of a change between hooks only the change remains.
-/

namespace BoundedCache

namespace Cache

variable {K V α : Type} {c c' : Cache K V}

/-! ## Shut down -/

theorem availability_of_down (h : c.lifecycle.isDown = true) (strict : Bool) :
    c.lifecycle.availability strict =
      if strict then .error (.unavailable c.lifecycle.name) else .ok false := by
  refine if_neg fun hrunning => ?_
  rw [hrunning] at h
  exact absurd h (by decide)

/-- There is no start any more, and no answer but no. -/
theorem running_of_down (h : c.lifecycle.isDown = true) (strict : Bool) :
    c.running strict =
      (if strict then .error (.unavailable c.lifecycle.name) else .ok false, c.mayDrain) := by
  have hready : c.lifecycle ≠ .ready := by
    intro hready
    rw [hready] at h
    exact absurd h (by decide)
  rw [running, Lifecycle.lazyStart, if_neg hready, availability_of_down h]
  cases strict <;> rfl

theorem whenRunning_of_down (h : c.lifecycle.isDown = true)
    (operation : Cache K V → α × Cache K V) :
    c.whenRunning operation = (.error (.unavailable c.lifecycle.name), c.mayDrain) := by
  rw [whenRunning, running_of_down h]
  rfl

theorem ifRunning_of_down (h : c.lifecycle.isDown = true) (idle : α)
    (operation : Cache K V → α × Cache K V) :
    c.ifRunning idle operation = (idle, c.mayDrain) := by
  rw [ifRunning, running_of_down h]
  rfl

/-- A failure at the front is the common result, in whatever way the others are looked at. -/
theorem join_of_failed (c : Cache K V) (error : CacheError) (futures : List (Future K V)) :
    c.join (.ready (.error error) :: futures) = .failed error := by
  unfold join
  split <;> rfl

section

variable [DecidableEq K]

theorem releaseAll_ready (c : Cache K V) (answers : List (Answer K V)) :
    c.releaseAll (answers.map .ready) = c := by
  induction answers with
  | nil => rfl
  | cons answer rest ih => exact ih

variable [KeyText K]

theorem get_of_down (h : c.lifecycle.isDown = true) (key : K) (attributes : Attributes) :
    c.get key attributes = (.ready (.error (.unavailable c.lifecycle.name)), c.mayDrain) := by
  rw [get, running_of_down h]
  rfl

theorem load_of_down (h : c.lifecycle.isDown = true) (key : K) (attributes : Attributes) :
    c.load key attributes = (.ready (.error (.unavailable c.lifecycle.name)), c.mayDrain) := by
  rw [load, running_of_down h]
  rfl

theorem forceLoad_of_down (h : c.lifecycle.isDown = true) (key : K) :
    c.forceLoad key = (.ready (.error (.unavailable c.lifecycle.name)), c.mayDrain) := by
  rw [forceLoad, running_of_down h]
  rfl

theorem getAndWait_of_down (h : c.lifecycle.isDown = true) (key : K) :
    c.getAndWait key = (some (.error (.unavailable c.lifecycle.name)), c.mayDrain) := by
  rw [getAndWait, get_of_down h]
  rfl

/-- Asking for several loads fails as asking for the first of them does; if there is none,
nothing is asked. -/
theorem loadAll_of_down (h : c.lifecycle.isDown = true) (keys : List K) :
    (c.loadAll keys).1 =
      if keys = [] then .complete [] else .failed (.unavailable c.lifecycle.name) := by
  cases keys with
  | nil => rfl
  | cons key keys =>
      rw [if_neg (List.cons_ne_nil key keys), loadAll, List.eraseDups_cons, loadEach,
        load_of_down h]
      simp only [join_of_failed]

end

/-! ## Closed -/

/-- The cache is shut down, or later, and at rest. -/
structure Closed [DecidableEq K] (c : Cache K V) : Prop where
  isDown : c.lifecycle.isDown = true
  atRest : c.desk.coordinator.AtRest
  engaged : c.desk.Engaged

namespace Closed

variable [DecidableEq K]

/-- A cache whose loads wind down stays closed. -/
theorem winds (h : c.Closed) (hwinds : c.desk.Winds c'.desk) : c'.Closed :=
  ⟨hwinds.isDown h.isDown, hwinds.leads.atRest h.atRest, hwinds.engaged h.engaged⟩

theorem of_desk (h : c.Closed) (hdesk : c'.desk = c.desk) : c'.Closed :=
  h.winds (hdesk ▸ .refl c.desk)

theorem mayDrain_eq (h : c.Closed) : c.mayDrain = c := by
  rw [mayDrain, h.atRest.mayDrain_eq]

theorem whenRunning_eq (h : c.Closed) (operation : Cache K V → α × Cache K V) :
    c.whenRunning operation = (.error (.unavailable c.lifecycle.name), c) := by
  rw [whenRunning_of_down h.isDown, h.mayDrain_eq]

theorem ifRunning_eq (h : c.Closed) (idle : α) (operation : Cache K V → α × Cache K V) :
    c.ifRunning idle operation = (idle, c) := by
  rw [ifRunning_of_down h.isDown, h.mayDrain_eq]

theorem setLifecycle_eq (h : c.Closed) : c.setLifecycle c.lifecycle.shutDown.2 = c := by
  rw [Lifecycle.shutDown, if_pos h.isDown]
  rfl

theorem shutDown_eq (h : c.Closed) : c.shutDown = (false, c) := by
  have hanswer : c.lifecycle.shutDown.1 = false := by
    rw [Lifecycle.shutDown, if_pos h.isDown]
  have hdrained := congrArg Cache.mayDrain h.setLifecycle_eq
  rw [h.mayDrain_eq] at hdrained
  exact Prod.ext hanswer hdrained

/-- Whatever a hook asks of the cache, nothing comes of it. -/
theorem obeyWith_eq (h : c.Closed) (call : Dispatch K V) (command : Command K V) :
    obeyWith call c command = c := by
  cases command with
  | shutDown => exact congrArg Prod.snd h.shutDown_eq
  | carryOut errand huser =>
      rw [obeyWith, running_of_down h.isDown, h.mayDrain_eq]
      cases errand.strict <;> rfl

section

variable [KeyText K]

theorem get_eq (h : c.Closed) (key : K) (attributes : Attributes) :
    c.get key attributes = (.ready (.error (.unavailable c.lifecycle.name)), c) := by
  rw [get_of_down h.isDown, h.mayDrain_eq]

theorem load_eq (h : c.Closed) (key : K) (attributes : Attributes) :
    c.load key attributes = (.ready (.error (.unavailable c.lifecycle.name)), c) := by
  rw [load_of_down h.isDown, h.mayDrain_eq]

theorem forceLoad_eq (h : c.Closed) (key : K) :
    c.forceLoad key = (.ready (.error (.unavailable c.lifecycle.name)), c) := by
  rw [forceLoad_of_down h.isDown, h.mayDrain_eq]

theorem loadEach_eq (h : c.Closed) (keys : List K) :
    c.loadEach keys =
      ((keys.map fun _ => .error (.unavailable c.lifecycle.name)).map .ready, c) := by
  induction keys with
  | nil => rfl
  | cons key keys ih =>
      rw [loadEach, h.load_eq]
      dsimp only
      rw [ih]
      rfl

/-- There is nothing to wait for, and so no queue is run. -/
theorem loadAll_eq (h : c.Closed) (keys : List K) : (c.loadAll keys).2 = c := by
  unfold loadAll
  rw [h.loadEach_eq]
  cases keys.eraseDups with
  | nil => rfl
  | cons key rest =>
      simp only [List.map_cons, join_of_failed]
      exact c.releaseAll_ready ((key :: rest).map fun _ => .error (.unavailable c.lifecycle.name))

theorem getAndWait_eq (h : c.Closed) (key : K) :
    c.getAndWait key = (some (.error (.unavailable c.lifecycle.name)), c) := by
  rw [getAndWait_of_down h.isDown, h.mayDrain_eq]

end

end Closed

/-! ## Until then -/

/-- The desks of the two caches differ in nothing but the state. -/
def SameLoads (c c' : Cache K V) : Prop :=
  ∃ state, c'.desk =
    { c.desk with coordinator := { c.desk.coordinator with lifecycle := state } }

theorem SameLoads.of_desk (hdesk : c'.desk = c.desk) : SameLoads c c' := ⟨c.lifecycle, hdesk⟩

theorem SameLoads.trans {c'' : Cache K V} (h : SameLoads c c') (h' : SameLoads c' c'') :
    SameLoads c c'' := by
  obtain ⟨state, hdesk⟩ := h
  obtain ⟨state', hdesk'⟩ := h'
  exact ⟨state', by rw [hdesk', hdesk]⟩

theorem sameLoads_setLifecycle (c : Cache K V) (state : Lifecycle) :
    SameLoads c (c.setLifecycle state) := ⟨state, rfl⟩

theorem sameLoads_mayDrain (c : Cache K V) : SameLoads c c.mayDrain := by
  refine ⟨c.mayDrain.lifecycle, ?_⟩
  rw [mayDrain, Coordinator.mayDrain_eq]
  rfl

theorem sameLoads_lazyStart (c : Cache K V) (strict : Bool) :
    SameLoads c (Lifecycle.lazyStart lifecycle setLifecycle strict startSweeper c).2 := by
  unfold Lifecycle.lazyStart
  by_cases hready : c.lifecycle = .ready
  · rw [if_pos hready]
    have hdesk := startSweeper_desk (c.setLifecycle .starting)
    rcases hstart : (c.setLifecycle .starting).startSweeper with ⟨⟨e⟩ | ⟨⟨⟩⟩, world⟩
    all_goals
      rw [hstart] at hdesk
      have hstarting := (c.sameLoads_setLifecycle .starting).trans (.of_desk hdesk)
      exact hstarting.trans (sameLoads_setLifecycle _ _)
  · rw [if_neg hready]
    exact .of_desk rfl

/-- A start, and what may be drained after it, only change the state. -/
theorem sameLoads_running (c : Cache K V) (strict : Bool) : SameLoads c (c.running strict).2 := by
  have hstart := c.sameLoads_lazyStart strict
  unfold running
  split
  · rename_i hok
    rwa [hok] at hstart
  · rename_i hother
    rw [hother] at hstart
    exact hstart.trans (sameLoads_mayDrain _)

theorem steady_sameLoads : Steady (SameLoads : Cache K V → Cache K V → Prop) where
  trans := SameLoads.trans
  inData _ _ _ := .of_desk rfl
  running := sameLoads_running
  shutDown c := (c.sameLoads_setLifecycle _).trans (sameLoads_mayDrain _)

variable [DecidableEq K]

theorem SameLoads.engaged (h : SameLoads c c') (hengaged : c.desk.Engaged) : c'.desk.Engaged := by
  obtain ⟨state, hdesk⟩ := h
  rw [hdesk]
  exact hengaged

theorem Move.engaged (h : Move c c') (hengaged : c.desk.Engaged) : c'.desk.Engaged := by
  cases h with
  | run strict => exact (c.sameLoads_running strict).engaged hengaged
  | shutDown => exact (steady_sameLoads.shutDown c).engaged hengaged
  | shutDownNow =>
      exact LoadDesk.Engaged.cancelAll ((c.sameLoads_setLifecycle _).engaged hengaged) _
  | perform change => exact (steady_sameLoads.perform c change).engaged hengaged
  | request key attributes forced => exact hengaged.request _ _ _ _ _
  | setTask task hmem => exact (LoadDesk.winds_setTask hmem).engaged hengaged
  | finish handle answer => exact hengaged.finish handle answer
  | detach handle => exact hengaged.detach _ handle
  | openGate key => exact hengaged.openGate key
  | setOrphans orphans => exact hengaged
  | schedule executor => exact hengaged
  | record hstore hhooks hdesk => rwa [hdesk]

theorem Moves.engaged (h : Moves c c') (hengaged : c.desk.Engaged) : c'.desk.Engaged :=
  h.lift (R := fun c c' => c.desk.Engaged → c'.desk.Engaged) (fun _ => id)
    (fun hfirst hlater h => hlater (hfirst h)) Move.engaged hengaged

end Cache

end BoundedCache
