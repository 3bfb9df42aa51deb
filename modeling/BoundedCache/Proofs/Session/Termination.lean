import BoundedCache.Proofs.Cache.Draining
import BoundedCache.Proofs.Cache.Perform
import BoundedCache.Proofs.Session.Doings

/-!
# A session ends when its cache is shut down and the last load is gone

After every sequence of requests and of turns of the executor the cache is at rest (`live_rests`):
shut down means that a load is still pending, and a cache that has terminated never has a load
pending again.
-/

namespace BoundedCache

namespace Builder

variable {K V : Type} [DecidableEq K] {b : Builder K V} {c : Cache K V}

/-- The desk of a new cache is empty. -/
theorem desk_build (h : b.build = .ok c) : ∃ executor, c.desk = { executor := executor } := by
  obtain ⟨executor, -, rfl⟩ := eq_of_build h
  exact ⟨executor, rfl⟩

theorem atRest_build (h : b.build = .ok c) : c.desk.coordinator.AtRest := by
  obtain ⟨executor, hdesk⟩ := desk_build h
  rw [hdesk]
  constructor <;> simp

end Builder

namespace Session

variable {K V : Type} [DecidableEq K] [KeyText K]

/-- After all that can happen to a session, a cache that is shut down has a load pending, a
cache that has terminated has none and never will have, and a cache that takes no work and
has no load pending has terminated. -/
theorem live_rests {b : Builder K V} {c : Cache K V} (hbuild : b.build = .ok c)
    (happenings : List (Happening K V)) :
    let s := live ⟨c, []⟩ happenings
    (s.cache.lifecycle = .shutdown → s.cache.desk.coordinator.pending ≠ []) ∧
      (s.cache.lifecycle = .terminated → ∀ later,
        (s.live later).cache.lifecycle = .terminated ∧
          (s.live later).cache.desk.coordinator.pending = []) ∧
      (s.cache.lifecycle.isDown = true → s.cache.desk.coordinator.pending = [] →
        s.cache.lifecycle = .terminated) := by
  intro s
  have hrest : s.cache.desk.coordinator.AtRest :=
    (live_moves ⟨c, []⟩ happenings).leads.atRest (Builder.atRest_build hbuild)
  refine ⟨hrest.busy, fun hover later => ?_, hrest.terminated⟩
  have hlater := (s.live_moves later).leads
  have hover' := hlater.final hrest hover
  exact ⟨hover', (hlater.atRest hrest).idle hover'⟩

/-- The theorem for a cache that is shut down while a load is pending: it terminates when the
executor drops the task of the load. -/
theorem live_rests_dropped :
    let b : Builder String Nat :=
      { executor := some {}, loader := some ⟨false, fun _ _ _ => .finish (.value 1)⟩ }
    ∃ c, b.build = .ok c ∧
      let s := live ⟨c, []⟩ [.request (.forceLoad "a"), .request .shutDown]
      s.cache.lifecycle = .shutdown ∧ s.cache.desk.coordinator.pending ≠ [] ∧
        ∀ later, ((s.happen (.request (.abandon 0))).live later).cache.desk.coordinator.pending =
          [] := by
  intro b
  refine ⟨_, rfl, ?_⟩
  intro s
  have hshutdown : s.cache.lifecycle = .shutdown := rfl
  have hover : (s.happen (.request (.abandon 0))).cache.lifecycle = .terminated := rfl
  have hbusy :=
    (live_rests (b := b) rfl [.request (.forceLoad "a"), .request .shutDown]).1 hshutdown
  have hend := (live_rests (b := b) rfl
    [.request (.forceLoad "a"), .request .shutDown, .request (.abandon 0)]).2.1 hover
  exact ⟨hshutdown, hbusy, fun later => (hend later).2⟩

end Session

end BoundedCache
