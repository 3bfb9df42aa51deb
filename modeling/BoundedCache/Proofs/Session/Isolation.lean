import BoundedCache.Proofs.Cache.Calming
import BoundedCache.Proofs.Session.Order
import BoundedCache.Proofs.Session.Retelling

/-!
# Hooks that fail

A hook that fails, by an error or by a panic, before a change or after it, cuts no round of calls
short: its failure is handed to the error handler, once, and the next hook is called.  Nothing
else comes of it.  Had no hook failed and no listener panicked, every operation would have
answered the same, and entries, order, loads and statistics would be the same.
-/

namespace BoundedCache

namespace Session

variable {K V : Type} [DecidableEq K] [KeyText K] {b : Builder K V} {c : Cache K V}

/-- The two sessions are the same but for their hooks, and for what these have written down apart
from the statistics. -/
structure Indifferent (s s' : Session K V) : Prop where
  futures_eq : s'.futures = s.futures
  cache_eq : s'.cache = { s.cache with hooks := s'.cache.hooks, ledger := s'.cache.ledger }
  statistics_eq : s'.cache.ledger.statistics = s.cache.ledger.statistics

omit [KeyText K] in
theorem indifferent_retold (s : Session K V) : s.Indifferent ((Retelling.calm K V).session s) :=
  ⟨rfl, rfl, rfl⟩

/-- Whatever hooks fail, every round calls all of them once, in order; each failure is reported
once, in the order of the calls; and without the failures all would be the same. -/
theorem live_isolated (hbuild : b.build = .ok c) (hhooks : ∀ hook ∈ b.hooks, hook.Inert)
    (happenings : List (Happening K V)) :
    let s := live ⟨c, []⟩ happenings
    (∃ visits, History b.laterHooks {} c.store visits s.cache.ledger.trace
        s.cache.ledger.statistics s.cache.store ∧
      s.cache.ledger.reported = visits.filterMap Visit.error? ∧
      ∀ v ∈ visits, ∀ error, v.error? = some error → error.kind = .hookFailed ∧
        error.context = [("hook", v.hook.name), ("operation", v.call.token.operation.name)]) ∧
      ∃ calm, b.calm.build = .ok calm ∧
        replies ⟨calm, []⟩ happenings = replies ⟨c, []⟩ happenings ∧
        s.Indifferent (live ⟨calm, []⟩ happenings) ∧
        (live ⟨calm, []⟩ happenings).cache.ledger.reported = [] := by
  intro s
  obtain ⟨-, visits, hhistory⟩ := history_of_live hbuild hhooks happenings
  obtain ⟨hlive, hreplies⟩ := live_retold (Retelling.calm K V) ⟨c, []⟩ happenings
  have hstart : (Retelling.calm K V).session ⟨c, []⟩ = ⟨(Retelling.calm K V).cache c, []⟩ := rfl
  rw [hstart] at hlive hreplies
  refine ⟨⟨visits, hhistory, hhistory.reported, fun v _ error => Visit.error?_names⟩,
    (Retelling.calm K V).cache c, Builder.build_calm hbuild, hreplies, ?_, ?_⟩
  · rw [hlive]
    exact indifferent_retold s
  · rw [hlive]
    exact s.cache.ledger.reported_calm

/-- The theorem for a hook that panics before every operation, another that fails after a put, and
a listener that panics.  The hook between them is called all the same. -/
theorem live_isolated_all_failing :
    let b : Builder String Nat :=
      { executor := some {}, listeners := [.panicking (fun _ => true) id]
        hooks := [.failing "first" .statistics false none (.panic (.text "no")),
          .recorder "second" .event,
          .failing "third" .event true (some .put) (.error (.message "no"))] }
    let happenings := [.request (.put "a" 1 {}), .request (.getIfPresent "a")]
    ∃ c, b.build = .ok c ∧
      (∃ calm, b.calm.build = .ok calm ∧
        replies ⟨calm, []⟩ happenings = replies ⟨c, []⟩ happenings ∧
        (live ⟨c, []⟩ happenings).Indifferent (live ⟨calm, []⟩ happenings)) ∧
      (live ⟨c, []⟩ happenings).cache.ledger.reported.map (·.context.map (·.2)) =
        [["first", "put"], ["third", "put"], ["event", "put"], ["first", "get"]] := by
  intro b happenings
  have hinert : ∀ hook ∈ b.hooks, hook.Inert := by
    intro hook hmem
    rcases List.mem_cons.mp hmem with rfl | hmem
    · exact fun _ => rfl
    · rcases List.mem_cons.mp hmem with rfl | hmem
      · exact fun _ => rfl
      · rw [List.mem_singleton.mp hmem]
        exact fun _ => rfl
  obtain ⟨-, calm, hcalm, hreplies, hsame, -⟩ := live_isolated (b := b) rfl hinert happenings
  exact ⟨_, rfl, ⟨calm, hcalm, hreplies, hsame⟩, by decide +kernel⟩

end Session

end BoundedCache
