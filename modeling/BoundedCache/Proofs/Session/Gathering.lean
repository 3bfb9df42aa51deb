import BoundedCache.Proofs.Cache.Gathering
import BoundedCache.Proofs.Session.Holding

/-!
# Several keys asked for at once

Several keys are asked for one after the other, without their duplicates, and then their futures
are waited for together.  Between the two anything can happen, and what has come of the call by
then (`Gathered`) does not depend on it: the loads that it began are one at most for each key that
was not live, the result is that of the futures, in whatever way they are looked at, and once it
has let go of them every load that is pending is held by somebody else.
-/

namespace BoundedCache

namespace Cache

variable {K V : Type} [DecidableEq K] [KeyText K]

/-- Waiting for several loads means running the queue, or nothing at all. -/
theorem loadAll_eq (c : Cache K V) (keys : List K) :
    let call := c.loadEach keys.eraseDups
    ∃ d, (d = call.2 ∨ d = call.2.runIdle) ∧
      c.loadAll keys = (d.join call.1, d.releaseAll call.1) := by
  unfold loadAll
  dsimp only
  split
  · exact ⟨_, .inr rfl, rfl⟩
  · exact ⟨_, .inl rfl, rfl⟩

variable {c d : Cache K V}

/-- What a future has resolved to does not change any more. -/
theorem Acts.answer?_eq (h : Acts c d) (hcalled : c.Called) {future : Future K V}
    {answer : Answer K V} (hanswer : c.answer? future = some answer) :
    d.answer? future = some answer := by
  cases future with
  | ready answered => exact hanswer
  | load handle => exact ((h.outlasts hcalled).answered handle answer hanswer).1

end Cache

namespace Builder

variable {K V : Type} [DecidableEq K] {b : Builder K V} {c : Cache K V}

/-- Nobody holds a load of a new cache. -/
theorem holds_build (h : b.build = .ok c) : c.Holds [] := by
  obtain ⟨executor, hdesk⟩ := desk_build h
  exact ⟨[], hdesk ▸ .new executor _⟩

end Builder

namespace Session

variable {K V : Type} [DecidableEq K] [KeyText K] {b : Builder K V} {c : Cache K V}
  {loader : Loader K V}

/-- What has come of the call by which different keys were asked for in the session `s`, when it
has become `t`.  The call made the futures, and left a cache behind. -/
structure Gathered (s : Session K V) (keys : List K) (call : List (Future K V) × Cache K V)
    (t : Session K V) : Prop where
  serving : Cache.Serving s.cache keys call.1 call.2
  /-- The loads that begin in the call are those of its futures. -/
  called : ∀ handle ∈ t.cache.loaderCalls,
    s.cache.desk.coordinator.nextId ≤ handle.id → handle.id < call.2.desk.coordinator.nextId →
      (handle.key, .load handle) ∈ keys.zip call.1
  callsFor_le_one : ∀ key,
    t.cache.callsFor s.cache.desk.coordinator.nextId call.2.desk.coordinator.nextId key ≤ 1
  callsFor_of_ready : ∀ key answer, (key, .ready answer) ∈ keys.zip call.1 →
    t.cache.callsFor s.cache.desk.coordinator.nextId call.2.desk.coordinator.nextId key = 0
  /-- What a key has resolved to meanwhile is what it has resolved to in the end. -/
  stays : ∀ d, Cache.Acts call.2 d → Cache.Acts d t.cache → ∀ future answer,
    d.answer? future = some answer → t.cache.answer? future = some answer
  /-- In whatever way the futures are looked at, the result is right. -/
  concludes : ∀ joint, t.cache.Joins call.1 joint → t.cache.Concludes keys call.1 joint
  failed_of_answered : ∀ joint, t.cache.Joins call.1 joint →
    (∀ future ∈ call.1, (t.cache.answer? future).isSome = true) → ∀ future ∈ call.1, ∀ error,
      t.cache.answer? future = some (.error error) → ∃ failure, joint = .failed failure
  /-- The two ways there are are among these, and fail as early as they can. -/
  joins : t.cache.Joins call.1 (t.cache.join call.1)
  failed_of_error : ∀ before future after error, call.1 = before ++ future :: after →
    t.cache.answer? future = some (.error error) →
      call.1.length ≤ Cache.jointLimit ∨
          (∀ earlier ∈ before, (t.cache.answer? earlier).isSome = true) →
        ∃ failure, t.cache.join call.1 = .failed failure
  /-- However many futures there are, they can be looked at together. -/
  together : t.cache.Joins call.1 (t.cache.joinTogether call.1) ∧
    ∀ future ∈ call.1, ∀ error, t.cache.answer? future = some (.error error) →
      ∃ failure, t.cache.joinTogether call.1 = .failed failure
  /-- When the call is over, the users hold all loads that are pending. -/
  held : ∀ key load,
    (t.cache.releaseAll call.1).desk.coordinator.pending? key = some load →
      ⟨key, load.id⟩ ∈ t.handles

variable {s : Session K V}

/-- Several different keys are asked for in a session in order. -/
theorem gathered_loadEach (hcalled : s.cache.Called) (hholds : s.cache.Holds s.handles)
    (hrunning : s.cache.lifecycle = .running) {keys : List K} (hnodup : keys.Nodup)
    (more : List (Happening K V)) :
    let call := s.cache.loadEach keys
    s.Gathered keys call (({ s with cache := call.2 } : Session K V).live more) := by
  intro call
  have hgathers : Cache.Gathers s.cache keys call.1 call.2 :=
    hcalled.gathers_loadEach (.inl hrunning) keys
  have hasked : call.2.Holds (Future.handles call.1 ++ s.handles) :=
    hcalled.holds_loadEach hholds keys
  have hthere := (hgathers.acts.keeps_called hcalled).1
  have hacts := live_acts { s with cache := call.2 } more
  have hheld := live_holds (s := { s with cache := call.2 }) hthere hasked more
  generalize ({ s with cache := call.2 } : Session K V).live more = t at hacts hheld ⊢
  constructor
  case serving => exact hcalled.serving_loadEach (.inl hrunning) keys
  case called =>
    intro handle hmem hle hlt
    exact hgathers.mem_of_called hcalled hacts hmem hle hlt
  case callsFor_le_one => exact hgathers.callsFor_le_one hcalled hnodup hacts
  case callsFor_of_ready =>
    intro key answer hready
    exact hgathers.callsFor_eq_zero hcalled hnodup hacts hready
  case stays =>
    intro d hbefore hafter future answer hanswer
    exact hafter.answer?_eq (hbefore.keeps_called hthere).1 hanswer
  case concludes => exact fun joint hjoins => hgathers.concludes hnodup hacts hjoins
  case failed_of_answered =>
    intro joint hjoins hanswered future hmem error herror
    exact hjoins.failed_of_error hanswered hmem herror
  case joins => exact t.cache.joins_join call.1
  case failed_of_error =>
    intro before future after error hsplit herror hbefore
    rw [hsplit] at hbefore ⊢
    exact Cache.join_of_error herror hbefore
  case together =>
    refine ⟨t.cache.joins_joinTogether call.1, ?_⟩
    intro future hmem error herror
    exact Cache.joinTogether_of_error hmem herror
  case held =>
    -- what the call held is let go of, and the rest are the holds of the users
    intro key load hload
    exact (Cache.Holds.releaseAll call.1 hheld).mem_of_pending hload

/-- Whenever a cache with a loader is asked for several keys, each key is loaded once at most, the
result is what the keys have come to, and nothing is left behind. -/
theorem live_gathered (hbuild : b.build = .ok c) (hloader : b.loader = some loader)
    (happenings : List (Happening K V)) (keys : List K) :
    let s := live ⟨c, []⟩ happenings
    s.cache.lifecycle = .running →
      let call := s.cache.loadEach keys.eraseDups
      let asked : Session K V := { s with cache := call.2 }
      (∀ more, s.Gathered keys.eraseDups call (asked.live more)) ∧
        ∃ more, (more = [] ∨ more = [.request (.run none)]) ∧
          let t := asked.live more
          s.cache.loadAll keys = (t.cache.join call.1, t.cache.releaseAll call.1) := by
  intro s hrunning call asked
  obtain ⟨hcalled, -⟩ := Builder.called_build hbuild (by rw [hloader]; rfl)
  have hthere : s.cache.Called := ((live_acts ⟨c, []⟩ happenings).keeps_called hcalled).1
  have hstart : c.Holds ([] ++ handles ⟨c, []⟩) := Builder.holds_build hbuild
  have hholds : s.cache.Holds s.handles := live_holds (s := ⟨c, []⟩) hcalled hstart happenings
  refine ⟨gathered_loadEach hthere hholds hrunning (nodup_eraseDups keys), ?_⟩
  obtain ⟨d, hd, hcall⟩ := s.cache.loadAll_eq keys
  rcases hd with rfl | rfl
  · exact ⟨[], .inl rfl, hcall⟩
  · exact ⟨[.request (.run none)], .inr rfl, hcall⟩

/-- The theorem for a cache of one entry whose executor runs every load at once.  The load of a
key pushes out the live entry of a key before it, which the result holds nevertheless.  A key
without a value is not there, and one that is given twice is loaded once.  When another call fails,
the load that has been waited for besides stays, and the one that nobody else waits for goes. -/
theorem live_gathered_evicting :
    let loader : Loader String Nat :=
      ⟨false, fun key _ _ =>
        if key = "b" then .finish (.value 7)
        else if key = "n" then .finish .nothing
        else if key = "x" then .finish (.error "broken")
        else .awaitGate (.finish (.value 9))⟩
    let b : Builder String Nat :=
      { executor := some { spawning := .inline }, maxEntries := 1, loader := some loader }
    ∃ c, b.build = .ok c ∧
      let s := live ⟨c, []⟩ [.request (.put "a" 1 {}), .request (.load "w" {})]
      let keys := ["a", "b", "n", "b"]
      let call := s.cache.loadEach keys.eraseDups
      let asked : Session String Nat := { s with cache := call.2 }
      let all := s.cache.loadAll keys
      let failing := s.cache.loadAll ["w", "v", "x", "v"]
      s.Gathered keys.eraseDups call asked ∧
        (match all.1 with
          | .complete entries => entries.map fun entry => (entry.key, entry.value)
          | _ => []) = [("a", 1), ("b", 7)] ∧
        (all.2.live? "a").isNone = true ∧
        all.2.loaderCalls.reverse.map (·.key) = ["w", "b", "n"] ∧
        (match failing.1 with
          | .failed error => some error.kind
          | _ => none) = some .loader ∧
        failing.2.loaderCalls.reverse.map (·.key) = ["w", "v", "x"] ∧
        failing.2.desk.coordinator.pending.map Prod.fst = ["w"] := by
  intro loader b
  obtain ⟨hgathered, -⟩ := live_gathered (b := b) rfl rfl
    [.request (.put "a" 1 {}), .request (.load "w" {})] ["a", "b", "n", "b"] (by decide +kernel)
  exact ⟨_, rfl, hgathered [], by decide +kernel, by decide +kernel, by decide +kernel,
    by decide +kernel, by decide +kernel, by decide +kernel⟩

end Session

end BoundedCache
