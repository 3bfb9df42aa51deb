import BoundedCache.Proofs.Cache.Landing

/-!
# Who holds which load

A load that is pending counts those who wait for it, and these are the handles that are held of
it, whoever holds them (`Holds`).  A request for a load adds the handle that it answers, a
future that is let go of takes its own away, and no turn has anything to do with it.  So whoever
holds loads still does when several loads have been asked for and let go of again
(`Called.holdsOn_loadAll`).
-/

namespace BoundedCache

variable {K V : Type}

/-- The load that a future waits for. -/
def Future.handle? : Future K V → Option (LoadHandle K)
  | .ready _ => none
  | .load handle => some handle

/-- The loads that futures wait for. -/
def Future.handles (futures : List (Future K V)) : List (LoadHandle K) :=
  futures.filterMap handle?

namespace Cache

variable [DecidableEq K] {c c' : Cache K V} {handles others : List (LoadHandle K)}

/-- These are the handles that are held of the loads of the cache. -/
def Holds (c : Cache K V) (handles : List (LoadHandle K)) : Prop :=
  ∃ started, c.desk.Works (.error .cancelled) handles started

namespace Holds

theorem perm (h : c.Holds handles) (hperm : handles.Perm others) : c.Holds others := by
  obtain ⟨started, hworks⟩ := h
  exact ⟨started, hworks.perm hperm⟩

/-- Somebody holds every load that is pending. -/
theorem mem_of_pending (h : c.Holds handles) {key : K} {load : PendingLoad}
    (hload : c.desk.coordinator.pending? key = some load) : ⟨key, load.id⟩ ∈ handles := by
  obtain ⟨started, hworks⟩ := h
  obtain ⟨-, -, hwaiters, hpos⟩ := hworks.serves.waited key load hload
  exact List.count_pos_iff.mp (hwaiters ▸ hpos)

theorem release (future : Future K V) (h : c.Holds (future.handle?.toList ++ handles)) :
    (c.release future).Holds handles := by
  cases future with
  | ready answer => exact h
  | load handle =>
      obtain ⟨started, hworks⟩ := h
      exact ⟨started, LoadDesk.Works.detach hworks⟩

theorem releaseAll (futures : List (Future K V)) (h : c.Holds (Future.handles futures ++ handles)) :
    (c.releaseAll futures).Holds handles := by
  induction futures generalizing c with
  | nil => exact h
  | cons future rest ih =>
      refine ih (.release future ?_)
      rw [Future.handles, List.filterMap_cons] at h
      cases future with
      | ready answer => exact h
      | load handle => exact h

end Holds

/-- Whoever holds a load holds on to it. -/
def HoldsOn (c c' : Cache K V) : Prop := ∀ handles, c.Holds handles → c'.Holds handles

theorem HoldsOn.trans {c'' : Cache K V} (h : HoldsOn c c') (h' : HoldsOn c' c'') :
    HoldsOn c c'' :=
  fun handles hholds => h' handles (h handles hholds)

theorem holdsOn_of_progresses (h : c.desk.Progresses c'.desk) : HoldsOn c c' := by
  rintro handles ⟨started, hworks⟩
  exact ⟨started, h.works hworks⟩

theorem holdsOn_of_desk (hdesk : c'.desk = c.desk) : HoldsOn c c' :=
  holdsOn_of_progresses (hdesk ▸ .refl c.desk)

theorem SameLoads.holdsOn (h : SameLoads c c') : HoldsOn c c' := by
  obtain ⟨state, hdesk⟩ := h
  exact holdsOn_of_progresses (hdesk ▸ c.desk.progresses_inState state)

theorem holdsOn_shutDownNow (c : Cache K V) : HoldsOn c c.shutDownNow.2 := by
  have hcancels : HoldsOn (c.setLifecycle c.lifecycle.shutDown.2) c.shutDownNow.2 := by
    rintro handles ⟨started, hworks⟩
    exact ⟨started, hworks.cancelAll⟩
  exact (c.sameLoads_setLifecycle _).holdsOn.trans hcancels

theorem holdsOn_openGate (c : Cache K V) (key : K) : HoldsOn c (c.openGate key) :=
  holdsOn_of_progresses (c.desk.progresses_openGate key)

theorem holdsOn_abandon (c : Cache K V) (id : Nat) : HoldsOn c (c.abandon id) :=
  holdsOn_of_progresses (c.desk.turns_abandon id .error).progresses

/-! ## Turns -/

section

variable [KeyText K] {ticket : Ticket}

/-- The end of a load takes its task away, and nobody's hold. -/
theorem Goes.holdsOn_settle {old task : LoadTask K V} {d : Cache K V} {phase : Phase V}
    (h : Goes c old d { task with phase := phase }) (outcome : LoadOutcome V) :
    HoldsOn c (d.settle task outcome) := by
  obtain ⟨-, state, answer, hdesk⟩ := d.settle_desk task outcome
  have hhandle : task.handle = old.handle := h.follows.handle_eq
  rw [h.desk_eq, hhandle] at hdesk
  rintro handles ⟨started, hworks⟩
  refine ⟨started, ?_⟩
  rw [hdesk]
  exact ((c.desk.progresses_inState state).works hworks).finish h.mem answer

theorem Turn.holdsOn (h : Turn c ticket c') : HoldsOn c c' := by
  cases h with
  | idle hidle => exact holdsOn_of_desk rfl
  | aborted hmem hid hcancelled =>
      rintro handles ⟨started, hworks⟩
      exact ⟨started, hworks.finish hmem _⟩
  | waits h hid executor =>
      rintro handles ⟨started, hworks⟩
      refine ⟨started, ?_⟩
      have hthere := h.handle_mem
      rw [h.desk_eq] at hthere ⊢
      exact (hworks.setTask hthere).inExecutor executor
  | ends h hid => exact h.holdsOn_settle _
  | refused h hid hblocking => exact h.holdsOn_settle _
  | late h hid hlive =>
      rintro handles ⟨started, hworks⟩
      refine ⟨started, ?_⟩
      rw [h.desk_eq]
      exact hworks.withOrphans _

theorem Called.holdsOn_runTicket (h : c.Called) (ticket : Ticket) :
    HoldsOn c (c.runTicket ticket) :=
  (turn_runTicket h.desk.engaged ticket).holdsOn

theorem Called.holdsOn_runQueue (h : c.Called) (count : Nat) :
    HoldsOn c (c.runQueue count) := by
  induction count generalizing c with
  | zero => exact holdsOn_of_desk rfl
  | succ count ih =>
      unfold runQueue
      split
      · exact holdsOn_of_desk rfl
      · rename_i ticket executor _
        have htaken : Acts c { c with desk := { c.desk with executor := executor } } :=
          (Act.schedule executor).acts
        have hcalled := (htaken.keeps_called h).1
        have hturned := (Act.turn ticket).acts.keeps_called hcalled
        refine HoldsOn.trans ?_ ((hcalled.holdsOn_runTicket ticket).trans (ih hturned.1))
        exact holdsOn_of_progresses (c.desk.progresses_inExecutor executor)

theorem Called.holdsOn_runIdle (h : c.Called) : HoldsOn c c.runIdle := h.holdsOn_runQueue _

/-! ## Requests -/

/-- Who asks for a load holds it from then on. -/
theorem Called.holds_requestLoad (h : c.Called) (hholds : c.Holds handles) (key : K)
    (attributes : Attributes) (forced : Bool) :
    let asked := c.requestLoad key attributes forced
    asked.2.Holds (asked.1.handle?.toList ++ handles) := by
  intro asked
  have hasked : Asked c key attributes forced asked := asked_requestLoad h.loader key _ _
  clear_value asked
  obtain ⟨started, hworks⟩ := hholds
  cases hasked with
  | joined hload => exact ⟨started, hworks.join hload⟩
  | unavailable hfree hdown => exact ⟨started, hworks⟩
  | @started launch desk hfree hup hbegins =>
      have hbegun : { c with desk := desk }.Holds (⟨key, _⟩ :: handles) :=
        ⟨_, hbegins.works hfree rfl hworks⟩
      cases launch with
      | later => exact hbegun
      | now =>
          have hengaged := hbegins.engaged hfree rfl h.desk.engaged
          have hturn := turn_runTicket (c := { c with desk := desk }) hengaged
            (.task c.desk.coordinator.nextId)
          exact hturn.holdsOn _ hbegun

theorem Called.holds_load (h : c.Called) (hholds : c.Holds handles) (key : K)
    (attributes : Attributes) :
    let asked := c.load key attributes
    asked.2.Holds (asked.1.handle?.toList ++ handles) := by
  have hstart : (c.running true).2.Holds handles := (c.sameLoads_running true).holdsOn _ hholds
  have hcalled := ((Act.run true).acts.keeps_called h).1
  unfold load
  split
  · rename_i heq
    rwa [heq] at hstart
  · rename_i heq
    rw [heq] at hstart hcalled
    split
    · exact hstart
    · exact hcalled.holds_requestLoad hstart key attributes false

theorem Called.holds_loadEach (h : c.Called) (hholds : c.Holds handles) (keys : List K) :
    (c.loadEach keys).2.Holds (Future.handles (c.loadEach keys).1 ++ handles) := by
  induction keys generalizing c handles with
  | nil => exact hholds
  | cons key keys ih =>
      have hload := h.holds_load hholds key {}
      have hcalled := ((c.acts_load key {}).keeps_called h).1
      rw [loadEach]
      dsimp only at hload ⊢
      refine (ih hcalled hload).perm ?_
      rw [Future.handles, Future.handles, List.filterMap_cons]
      cases (c.load key {}).1.handle? with
      | none => exact .refl _
      | some handle => exact List.perm_middle

/-- Loads that were asked for together are let go of together. -/
theorem Called.holdsOn_loadAll (h : c.Called) (keys : List K) :
    HoldsOn c (c.loadAll keys).2 := by
  intro handles hholds
  have hbegun := h.holds_loadEach hholds keys.eraseDups
  have hcalled := ((c.acts_loadEach keys.eraseDups).keeps_called h).1
  unfold loadAll
  dsimp only
  split
  · exact .releaseAll _ (hcalled.holdsOn_runIdle _ hbegun)
  · exact .releaseAll _ hbegun

end

end Cache

end BoundedCache
