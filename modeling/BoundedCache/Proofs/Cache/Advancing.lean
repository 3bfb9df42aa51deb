import BoundedCache.Proofs.Cache.Moves
import BoundedCache.Proofs.Cache.Draining
import BoundedCache.Proofs.Lifecycle

/-!
# The state of a cache never goes back

Whatever happens to a cache, its state is the same or a later one (`Moves.forward`).  So a cache
that runs goes on running, or is shut down.
-/

namespace BoundedCache

namespace Lifecycle

/-- A cache that has come as far as to run goes on running, or is shut down. -/
theorem running_or_isDown {a b : Lifecycle} (h : a = .running ∨ a.isDown = true)
    (hle : a.rank ≤ b.rank) : b = .running ∨ b.isDown = true := by
  cases b with
  | running => exact .inl rfl
  | shutdown | stopping | terminated => exact .inr rfl
  | ready | starting =>
      rcases h with rfl | hdown
      · exact absurd hle (by decide)
      · exact .inr (isDown_mono hdown hle)

end Lifecycle

namespace Cache

variable {K V : Type} {c c' c'' : Cache K V}

/-- The state is the same, or a later one. -/
def Forward (c c' : Cache K V) : Prop := c.lifecycle.rank ≤ c'.lifecycle.rank

theorem forward_of_desk (hdesk : c'.desk = c.desk) : Forward c c' := by
  refine Nat.le_of_eq ?_
  rw [lifecycle, lifecycle, hdesk]

theorem Forward.trans (h : Forward c c') (h' : Forward c' c'') : Forward c c'' := Nat.le_trans h h'

theorem le_rank_mayDrain {ρ : Type} {c : Coordinator K ρ} {rank : Nat}
    (h : rank ≤ c.lifecycle.rank) : rank ≤ c.mayDrain.lifecycle.rank := by
  rw [Coordinator.lifecycle_mayDrain]
  split
  · rename_i hdrains
    rw [hdrains.1] at h
    exact Nat.le_trans h (by decide)
  · exact h

theorem forward_mayDrain (c : Cache K V) : Forward c c.mayDrain :=
  le_rank_mayDrain (Nat.le_refl _)

theorem forward_running (c : Cache K V) (strict : Bool) : Forward c (c.running strict).2 := by
  by_cases hready : c.lifecycle = .ready
  · rw [Forward, hready]
    exact Nat.zero_le _
  · rw [running, Lifecycle.lazyStart, if_neg hready]
    rcases c.lifecycle.availability strict with error | ⟨_ | _⟩
    · exact c.forward_mayDrain
    · exact c.forward_mayDrain
    · exact Nat.le_refl _

theorem steady_forward : Steady (Forward : Cache K V → Cache K V → Prop) where
  trans := Forward.trans
  inData _ _ _ := forward_of_desk rfl
  running := forward_running
  shutDown _ := le_rank_mayDrain Lifecycle.rank_le_shutDown

variable [DecidableEq K]

theorem rank_le_complete {ρ : Type} (c : Coordinator K ρ) (key : K) (id : Nat) (answer : ρ) :
    c.lifecycle.rank ≤ (c.complete key id answer).lifecycle.rank := by
  rcases c.complete_cases key id answer with ⟨-, heq⟩ | ⟨load, -, -, heq⟩
  · exact Nat.le_of_eq (by rw [heq])
  · rw [heq]
    exact le_rank_mayDrain (Nat.le_refl _)

theorem rank_le_detach {ρ : Type} (c : Coordinator K ρ) (cancelledAnswer : ρ)
    (handle : LoadHandle K) :
    c.lifecycle.rank ≤ (c.detach cancelledAnswer handle).2.lifecycle.rank := by
  rcases c.detach_cases cancelledAnswer handle with
    ⟨-, heq⟩ | ⟨load, -, -, -, heq⟩ | ⟨load, -, -, -, heq⟩
  · exact Nat.le_of_eq (by rw [heq])
  · exact Nat.le_of_eq (by rw [heq]; rfl)
  · rw [heq]
    exact le_rank_mayDrain (Nat.le_refl _)

theorem forward_request (c : Cache K V) (key : K) (attributes : Attributes) (forced : Bool) :
    Forward c { c with desk := (c.desk.request key attributes forced none .error).2 } := by
  rcases c.desk.request_cases key attributes forced none .error with
    ⟨load, -, heq⟩ | ⟨-, -, heq⟩ | ⟨-, -, launch, desk, hbegins, heq⟩
  · exact Nat.le_of_eq (by rw [heq]; rfl)
  · exact Nat.le_of_eq (by rw [heq])
  · rw [heq]
    cases hbegins with
    | hired launch executor => exact Nat.le_refl _
    | turnedAway executor => exact rank_le_complete (c.desk.coordinator.begin key) _ _ _

theorem Move.forward (h : Move c c') : Forward c c' := by
  cases h with
  | run strict => exact c.forward_running strict
  | shutDown => exact steady_forward.shutDown c
  | shutDownNow =>
      show _ ≤ (LoadDesk.cancelAll _ _).coordinator.lifecycle.rank
      rw [LoadDesk.cancelAll_eq, Coordinator.cancelAll_eq]
      exact le_rank_mayDrain Lifecycle.rank_le_shutDown
  | perform change => exact steady_forward.perform c change
  | request key attributes forced => exact c.forward_request key attributes forced
  | setTask task hmem => exact Nat.le_refl _
  | finish handle answer => exact rank_le_complete c.desk.coordinator _ _ answer
  | detach handle =>
      show _ ≤ (LoadDesk.detach _ _ _).coordinator.lifecycle.rank
      rw [LoadDesk.detach_eq]
      exact rank_le_detach _ _ _
  | openGate key =>
      show _ ≤ (LoadDesk.openGate _ _).coordinator.lifecycle.rank
      rw [LoadDesk.coordinator_openGate]
      exact Nat.le_refl _
  | setOrphans orphans => exact Nat.le_refl _
  | schedule executor => exact Nat.le_refl _
  | record hstore hhooks hdesk => exact forward_of_desk hdesk

/-- Whatever happens to a cache, its state never goes back. -/
theorem Moves.forward (h : Moves c c') : Forward c c' :=
  h.lift (fun _ => Nat.le_refl _) Forward.trans Move.forward

end Cache

end BoundedCache
