import BoundedCache.Session
import BoundedCache.Proofs.Cache.Closed

/-!
# Strict operations fail once the cache is shut down

Whoever insists on a cache that runs is told that it does not: as the reply, or, where a
future is handed out, as the answer that the future has from the start.  It makes no
difference what is asked for, whether there is a loader, and whether the cache is at rest.

The one exception is to ask for several loads and name none.  The check is made for each
key and nowhere else, so there is nothing to fail (`step_loadAll_nil`); an empty batch of
writes or removals is checked.
-/

namespace BoundedCache

variable {K V : Type}

/-- Whether a request insists on a cache that runs. -/
def Request.isStrict : Request K V → Bool
  | .start | .getIfPresent _ | .put .. | .putIfAbsent .. | .putAll _ | .replace .. | .remove _
  | .removeAll _ | .get .. | .load .. | .forceLoad _ | .loadAll _ | .getAndWait _ => true
  | _ => false

namespace Session

variable [DecidableEq K] [KeyText K] {s : Session K V} {request : Request K V} {e : CacheError}

/-- The error that a request comes to, at once or by the answer that its future has from
the start. -/
def failure? (s : Session K V) (request : Request K V) : Option CacheError :=
  match s.step request with
  | (.failed e, _) => some e
  | (.issued handle _, t) =>
      match (t.take handle).1 with
      | .ready (.error e) => some e
      | _ => none
  | _ => none

theorem failure?_of_failed (h : (s.step request).1 = .failed e) : s.failure? request = some e := by
  unfold failure?
  rcases hstep : s.step request with ⟨reply, t⟩
  rw [hstep] at h
  obtain rfl : reply = .failed e := h
  rfl

theorem failure?_of_issue (ask : Cache K V → Future K V × Cache K V)
    (hstep : s.step request = s.issue ask) (h : (ask s.cache).1 = .ready (.error e)) :
    s.failure? request = some e := by
  unfold failure?
  rcases hask : ask s.cache with ⟨future, cache⟩
  rw [hask] at h
  obtain rfl : future = .ready (.error e) := h
  -- the new future is the last one, and it has its answer
  have htake : ∀ held : Held K V, held.future = some (.ready (.error e)) → held.finished = false →
      (take ⟨cache, s.futures ++ [held]⟩ s.futures.length).1 = .ready (.error e) := by
    intro held hfuture hfinished
    obtain ⟨future, finished, answer⟩ := held
    obtain rfl : future = some (.ready (.error e)) := hfuture
    obtain rfl : finished = false := hfinished
    simp [take, poll, pollWith, held?, Cache.answer?]
  rw [hstep, issue, hask]
  dsimp only
  rw [htake _ rfl rfl]

/-- Strict operations fail once the cache is shut down, for all arguments, but for the loads
of no key at all. -/
theorem fails_of_down (hdown : s.cache.lifecycle.isDown = true) (hstrict : request.isStrict = true)
    (hnamed : request ≠ .loadAll []) :
    let e : CacheError := .unavailable s.cache.lifecycle.name
    s.failure? request = some e ∧ e.kind = .unavailable := by
  intro e
  refine ⟨?_, rfl⟩
  have hwhen {α : Type} (operation : Cache K V → α × Cache K V) (reply : α → Reply K V) :
      (s.ask (·.whenRunning operation) (.ofResult reply)).1 =
        .failed (.unavailable s.cache.lifecycle.name) := by
    rw [ask, Cache.whenRunning_of_down hdown]
    rfl
  cases request with
  | start => exact failure?_of_failed (hwhen _ _)
  | getIfPresent key => exact failure?_of_failed (hwhen _ _)
  | put key value attributes => exact failure?_of_failed (hwhen _ _)
  | putIfAbsent key value => exact failure?_of_failed (hwhen _ _)
  | putAll pairs => exact failure?_of_failed (hwhen _ _)
  | replace key value => exact failure?_of_failed (hwhen _ _)
  | remove key => exact failure?_of_failed (hwhen _ _)
  | removeAll keys => exact failure?_of_failed (hwhen _ _)
  | get key attributes =>
      exact failure?_of_issue (·.get key attributes) rfl
        (congrArg Prod.fst (Cache.get_of_down hdown key attributes))
  | load key attributes =>
      exact failure?_of_issue (·.load key attributes) rfl
        (congrArg Prod.fst (Cache.load_of_down hdown key attributes))
  | forceLoad key =>
      exact failure?_of_issue (·.forceLoad key) rfl
        (congrArg Prod.fst (Cache.forceLoad_of_down hdown key))
  | loadAll keys =>
      refine failure?_of_failed ?_
      have hanswer := Cache.loadAll_of_down hdown keys
      rw [if_neg fun hnone => hnamed (congrArg Request.loadAll hnone)] at hanswer
      exact congrArg Reply.ofJoint hanswer
  | getAndWait key =>
      refine failure?_of_failed ?_
      rw [step, ask, Cache.getAndWait_of_down hdown]
      rfl
  | _ => exact absurd hstrict Bool.false_ne_true

/-- The theorem for an empty batch of writes. -/
theorem fails_of_down_putAll :
    let b : Builder String Nat := { executor := some {} }
    ∃ c, b.build = .ok c ∧
      let s := live ⟨c, []⟩ [.request .shutDown]
      ∃ e, s.failure? (.putAll []) = some e ∧ e.kind = .unavailable := by
  intro b
  refine ⟨_, rfl, ?_⟩
  intro s
  have hdown : s.cache.lifecycle.isDown = true := rfl
  have hnamed : (.putAll [] : Request String Nat) ≠ .loadAll [] := nofun
  exact ⟨_, fails_of_down hdown rfl hnamed⟩

/-- No loads at all are complete at once, whatever the state of the cache. -/
theorem step_loadAll_nil (s : Session K V) : s.step (.loadAll []) = (.listed [], s) := rfl

/-- A cache that is shut down turns away an empty batch of removals, and does the loads of no
key. -/
theorem loadAll_nothing_of_down :
    let b : Builder String Nat := { executor := some {} }
    ∃ c, b.build = .ok c ∧
      let s := live ⟨c, []⟩ [.request .shutDown]
      s.cache.lifecycle.isDown = true ∧
        (s.failure? (.removeAll [])).map (·.kind) = some .unavailable ∧
        (s.step (.loadAll [])).1 = .listed [] ∧ s.failure? (.loadAll []) = none := by
  refine ⟨_, rfl, ?_⟩
  exact ⟨rfl, rfl, congrArg Prod.fst (step_loadAll_nil _), rfl⟩

end Session

end BoundedCache
