import BoundedCache.Proofs.Load.Desk

/-!
# A coordinator that is shut down terminates with its last load

Between calls a coordinator is `AtRest`: shut down means that a load is still pending, and
terminated that none is.  The last load can go by an answer, with its last waiter, or with
all others, and each of these ends by draining; draining is what makes the state fit the
table (`atRest_mayDrain`).

`Leads` is what all that preserves: rest, and that a coordinator which has terminated stays
so.
-/

namespace BoundedCache

namespace Coordinator

variable {K ρ : Type} {c c' c'' : Coordinator K ρ}

/-- No start is going on, a coordinator that is shut down has loads pending, and one that
has terminated has none. -/
structure AtRest (c : Coordinator K ρ) : Prop where
  not_starting : c.lifecycle ≠ .starting
  not_stopping : c.lifecycle ≠ .stopping
  busy : c.lifecycle = .shutdown → c.pending ≠ []
  idle : c.lifecycle = .terminated → c.pending = []

/-- What a coordinator at rest comes to: it is at rest again, and stays terminated. -/
structure Leads (c c' : Coordinator K ρ) : Prop where
  atRest : c.AtRest → c'.AtRest
  final : c.AtRest → c.lifecycle = .terminated → c'.lifecycle = .terminated

theorem Leads.refl (c : Coordinator K ρ) : Leads c c := ⟨id, fun _ => id⟩

theorem Leads.trans (h : Leads c c') (h' : Leads c' c'') : Leads c c'' :=
  ⟨fun hrest => h'.atRest (h.atRest hrest),
    fun hrest hover => h'.final (h.atRest hrest) (h.final hrest hover)⟩

theorem AtRest.cases (h : c.AtRest) :
    c.lifecycle.isDown = false ∨ c.lifecycle = .shutdown ∨ c.lifecycle = .terminated := by
  have hstarting := h.not_starting
  have hstopping := h.not_stopping
  cases hstate : c.lifecycle with
  | ready | running => exact .inl rfl
  | starting => exact absurd hstate hstarting
  | stopping => exact absurd hstate hstopping
  | shutdown => exact .inr (.inl rfl)
  | terminated => exact .inr (.inr rfl)

/-- A coordinator at rest that takes no work and has none left has terminated. -/
theorem AtRest.terminated (h : c.AtRest) (hdown : c.lifecycle.isDown = true)
    (hnone : c.pending = []) : c.lifecycle = .terminated := by
  rcases h.cases with hup | hshutdown | hover
  · rw [hup] at hdown
    exact absurd hdown Bool.false_ne_true
  · exact absurd hnone (h.busy hshutdown)
  · exact hover

theorem lifecycle_mayDrain (c : Coordinator K ρ) :
    c.mayDrain.lifecycle =
      if c.lifecycle = .shutdown ∧ c.pending = [] then .terminated else c.lifecycle := by
  unfold mayDrain
  cases hstate : c.lifecycle <;> cases hpending : c.pending <;>
    simp [Lifecycle.isDown, Lifecycle.isAtLeast, Lifecycle.rank, Lifecycle.drained, hstate]

theorem pending_mayDrain (c : Coordinator K ρ) : c.mayDrain.pending = c.pending := by
  rw [mayDrain_eq]

/-- Draining makes the state fit the table. -/
theorem atRest_mayDrain (hstarting : c.lifecycle ≠ .starting) (hstopping : c.lifecycle ≠ .stopping)
    (hidle : c.lifecycle = .terminated → c.pending = []) : c.mayDrain.AtRest := by
  by_cases hdrains : c.lifecycle = .shutdown ∧ c.pending = []
  · have hover : c.mayDrain.lifecycle = .terminated := by rw [lifecycle_mayDrain, if_pos hdrains]
    refine ⟨by simp [hover], by simp [hover], by simp [hover], fun _ => ?_⟩
    rw [pending_mayDrain]
    exact hdrains.2
  · have hsame : c.mayDrain.lifecycle = c.lifecycle := by rw [lifecycle_mayDrain, if_neg hdrains]
    refine ⟨by rwa [hsame], by rwa [hsame], fun hshutdown hnone => ?_, fun hover => ?_⟩
    · rw [hsame] at hshutdown
      rw [pending_mayDrain] at hnone
      exact hdrains ⟨hshutdown, hnone⟩
    · rw [hsame] at hover
      rw [pending_mayDrain]
      exact hidle hover

/-- Loads go, in the state as it is, and then the coordinator drains. -/
theorem leads_mayDrain (hstate : c'.lifecycle = c.lifecycle)
    (hidle : c.pending = [] → c'.pending = []) : Leads c c'.mayDrain where
  atRest h :=
    atRest_mayDrain (hstate ▸ h.not_starting) (hstate ▸ h.not_stopping)
      fun hover => hidle (h.idle (hstate ▸ hover))
  final h hover := by
    rw [lifecycle_mayDrain, hstate, hover]
    simp

/-- The state is the same, and there are loads as before. -/
theorem leads_of_same (hstate : c'.lifecycle = c.lifecycle)
    (hpending : c'.pending = [] ↔ c.pending = []) : Leads c c' where
  atRest h :=
    ⟨hstate ▸ h.not_starting, hstate ▸ h.not_stopping,
      fun hshutdown hnone => h.busy (hstate ▸ hshutdown) (hpending.mp hnone),
      fun hover => hpending.mpr (h.idle (hstate ▸ hover))⟩
  final _ hover := hstate ▸ hover

/-- A coordinator that takes work goes on taking it, or is at rest for another reason. -/
theorem leads_of_up (hup : c.lifecycle.isDown = false) (hrest : c.AtRest → c'.AtRest) :
    Leads c c' where
  atRest := hrest
  final _ hover := by
    rw [hover] at hup
    exact absurd hup (by decide)

/-- Shutting down, with loads going at the same time or not, is followed by draining. -/
theorem leads_shutDown (hstate : c'.lifecycle = c.lifecycle.shutDown.2)
    (hidle : c.pending = [] → c'.pending = []) : Leads c c'.mayDrain := by
  cases hdown : c.lifecycle.isDown with
  | true =>
      rw [Lifecycle.shutDown, hdown] at hstate
      exact leads_mayDrain hstate hidle
  | false =>
      rw [Lifecycle.shutDown, hdown] at hstate
      have hshutdown : c'.lifecycle = .shutdown := hstate
      refine leads_of_up hdown fun _ => ?_
      apply atRest_mayDrain <;> simp [hshutdown]

theorem leads_begin (key : K) (hup : c.lifecycle.isDown = false) : Leads c (c.begin key) := by
  refine leads_of_up hup fun h => ⟨h.not_starting, h.not_stopping, fun hdown => ?_, fun hover => ?_⟩
  · rw [show c.lifecycle = _ from hdown] at hup
    exact absurd hup (by decide)
  · rw [show c.lifecycle = _ from hover] at hup
    exact absurd hup (by decide)

variable [DecidableEq K]

theorem recount_pending_eq_nil (c : Coordinator K ρ) (key : K) (count : Nat → Nat) :
    (c.recount key count).pending = [] ↔ c.pending = [] :=
  List.map_eq_nil_iff

theorem leads_resolve (c : Coordinator K ρ) (key : K) (id : Nat) (answer : ρ)
    (cancelled : List Nat) :
    Leads c ({ c.resolve key id answer with cancelled := cancelled }).mayDrain := by
  refine leads_mayDrain rfl fun hnone => ?_
  show erase c.pending key = []
  rw [hnone]
  rfl

theorem leads_complete (c : Coordinator K ρ) (key : K) (id : Nat) (answer : ρ) :
    Leads c (c.complete key id answer) := by
  rcases c.complete_cases key id answer with ⟨-, heq⟩ | ⟨load, -, -, heq⟩
  · rw [heq]
    exact .refl c
  · rw [heq]
    exact c.leads_resolve key load.id answer c.cancelled

theorem leads_detach (c : Coordinator K ρ) (cancelledAnswer : ρ) (handle : LoadHandle K) :
    Leads c (c.detach cancelledAnswer handle).2 := by
  rcases c.detach_cases cancelledAnswer handle with
    ⟨-, heq⟩ | ⟨load, -, -, -, heq⟩ | ⟨load, -, -, -, heq⟩
  · rw [heq]
    exact .refl c
  · rw [heq]
    exact leads_of_same rfl (c.recount_pending_eq_nil _ _)
  · rw [heq]
    exact c.leads_resolve _ _ _ _

end Coordinator

namespace LoadDesk

variable {K V ρ : Type} [DecidableEq K] {d d' : LoadDesk K V ρ}

theorem Begins.leads {task : LoadTask K V} {ofError : CacheError → ρ} {launch : Launch}
    (hbegins : d.Begins task ofError launch d') (hup : d.coordinator.lifecycle.isDown = false) :
    d.coordinator.Leads d'.coordinator := by
  have hbegin := Coordinator.leads_begin task.handle.key hup
  cases hbegins with
  | hired launch executor => exact hbegin
  | turnedAway executor => exact hbegin.trans (Coordinator.leads_complete _ _ _ _)

theorem leads_request (d : LoadDesk K V ρ) (key : K) (attributes : Attributes) (forced : Bool)
    (program : Option (LoadProgram V)) (ofError : CacheError → ρ) :
    d.coordinator.Leads (d.request key attributes forced program ofError).2.coordinator := by
  rcases d.request_cases key attributes forced program ofError with
    ⟨load, -, heq⟩ | ⟨-, -, heq⟩ | ⟨-, hup, launch, d', hbegins, heq⟩
  · rw [heq]
    exact Coordinator.leads_of_same rfl (d.coordinator.recount_pending_eq_nil _ _)
  · rw [heq]
    exact .refl _
  · rw [heq]
    exact hbegins.leads hup

end LoadDesk

end BoundedCache
