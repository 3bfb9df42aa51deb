import BoundedCache.Proofs.Cache.Moves
import BoundedCache.Proofs.Load.Draining

/-!
# A cache that is shut down terminates with its last load

Every move of a cache leads from rest to rest, and no move leads back from the end.  What
there is to show is that a start and a shutdown do, and every change of the table of loads.
-/

namespace BoundedCache

namespace Cache

variable {K V : Type} {c c' c'' : Cache K V}

/-- What a cache at rest comes to. -/
def Leads (c c' : Cache K V) : Prop := c.desk.coordinator.Leads c'.desk.coordinator

theorem leads_of_desk (hdesk : c'.desk = c.desk) : Leads c c' := by
  unfold Leads
  rw [hdesk]
  exact .refl _

theorem startSweeper_desk (c : Cache K V) : c.startSweeper.2.desk = c.desk := by
  unfold startSweeper
  split
  · rfl
  · split <;> rfl

/-- A start succeeds, or it fails and the cache is shut down; if there is no start, either
the cache is running or it drains. -/
theorem running_leads (c : Cache K V) (strict : Bool) : Leads c (c.running strict).2 := by
  have hup : c.lifecycle = .ready → c.desk.coordinator.lifecycle.isDown = false := by
    intro hready
    rw [show c.desk.coordinator.lifecycle = _ from hready]
    rfl
  unfold running Lifecycle.lazyStart
  by_cases hready : c.lifecycle = .ready
  · rw [if_pos hready]
    have hdesk := startSweeper_desk (c.setLifecycle .starting)
    cases hstart : (c.setLifecycle .starting).startSweeper with
    | mk answer world =>
        rw [hstart] at hdesk
        have hworld : world.lifecycle = .starting := congrArg (·.coordinator.lifecycle) hdesk
        have hpending : world.desk.coordinator.pending = c.desk.coordinator.pending :=
          congrArg (·.coordinator.pending) hdesk
        cases answer with
        | ok _ =>
            have hrunning : world.lifecycle.started = .running := by rw [hworld]; rfl
            dsimp only
            rw [hrunning]
            show Leads c (world.setLifecycle .running)
            refine Coordinator.leads_of_up (hup hready) fun _ => ?_
            constructor <;> simp [setLifecycle]
        | error e =>
            have hshutdown : world.lifecycle.startFailed = .shutdown := by rw [hworld]; rfl
            have hafter : Leads c (world.setLifecycle .shutdown).mayDrain := by
              refine Coordinator.leads_shutDown ?_ fun hnone => hpending.trans hnone
              rw [show c.desk.coordinator.lifecycle = _ from hready]
              rfl
            dsimp only
            rw [hshutdown]
            cases strict with
            | true => exact hafter
            | false => exact hafter
  · rw [if_neg hready]
    split
    · rename_i heq
      rw [← (Prod.mk.inj heq).2]
      exact .refl _
    · rename_i heq
      rw [← (Prod.mk.inj heq).2]
      exact Coordinator.leads_mayDrain rfl id

theorem shutDown_leads (c : Cache K V) : Leads c c.shutDown.2 :=
  Coordinator.leads_shutDown rfl id

theorem shutDownNow_leads (c : Cache K V) : Leads c c.shutDownNow.2 := by
  let down := (c.setLifecycle c.lifecycle.shutDown.2).desk.coordinator
  have hstep : c.desk.coordinator.Leads (down.cancelAll (.error .cancelled)).2 := by
    rw [Coordinator.cancelAll_eq]
    exact Coordinator.leads_shutDown rfl fun _ => rfl
  unfold Leads shutDownNow
  dsimp only
  rw [LoadDesk.cancelAll_eq]
  exact hstep

theorem steady_leads : Steady (Leads : Cache K V → Cache K V → Prop) where
  trans := Coordinator.Leads.trans
  inData _ _ _ := leads_of_desk rfl
  running := running_leads
  shutDown := shutDown_leads

/-! ## Moves -/

variable [DecidableEq K]

theorem Move.leads (h : Move c c') : Leads c c' := by
  cases h with
  | run strict => exact c.running_leads strict
  | shutDown => exact c.shutDown_leads
  | shutDownNow => exact c.shutDownNow_leads
  | perform change => exact steady_leads.perform c change
  | request key attributes forced => exact LoadDesk.leads_request _ _ _ _ _ _
  | setTask task _ => exact .refl _
  | finish handle answer => exact Coordinator.leads_complete _ _ _ _
  | detach handle =>
      unfold Leads
      rw [LoadDesk.detach_eq]
      exact Coordinator.leads_detach _ _ _
  | openGate key =>
      unfold Leads
      rw [LoadDesk.coordinator_openGate]
      exact .refl _
  | setOrphans orphans => exact .refl _
  | schedule executor => exact .refl _
  | record hstore hhooks hdesk => exact leads_of_desk hdesk

theorem Moves.leads (h : Moves c c') : Leads c c' :=
  h.lift (fun _ => .refl _) Coordinator.Leads.trans Move.leads

end Cache

end BoundedCache
