import BoundedCache.Proofs.Cache.Narrating
import BoundedCache.Proofs.Session.Frozen

/-!
# The order of the hooks, and what they see

In the chain of a cache the statistics come before all other hooks, and the listeners after them;
those in between are in the order of their stages, and within a stage in that of their
registration.  Every round of calls follows the chain.  So whoever is told of an outcome, a
listener above all, finds it counted with those of the operation that were told before, and none
that is told later.
-/

namespace BoundedCache

namespace Builder

variable {K V : Type} [DecidableEq K] {b : Builder K V} {c : Cache K V}

/-- The hooks after the statistics: stage by stage, and within a stage as they were registered.
The listeners, if there are any, come last. -/
def laterHooks (b : Builder K V) : List (Hook K V) :=
  b.hooks.filter (fun hook => hook.stage = .statistics) ++
    (b.hooks.filter (fun hook => hook.stage = .event) ++
      if b.listeners.isEmpty then [] else [Hook.listeners .event b.listeners])

theorem hooks_build (h : b.build = .ok c) : c.hooks.hooks = Hook.statistics :: b.laterHooks := by
  rw [(build_eq h).2.1]
  unfold HookChain.ofHooks allHooks laterHooks
  by_cases hnone : b.listeners.isEmpty = true
  · simp [hnone, Hook.statistics]
  · simp [hnone, Hook.statistics, Hook.listeners]

theorem orderly_build (h : b.build = .ok c) (hhooks : ∀ hook ∈ b.hooks, hook.Inert) :
    c.Orderly b.listeners b.laterHooks where
  wired := (build_eq h).2.1 ▸ allHooks_wired hhooks
  hooks_eq := hooks_build h
  counts_once := by
    intro hook hmem
    rcases List.mem_append.mp hmem with hstatistics | hrest
    · exact (hhooks hook (List.mem_of_mem_filter hstatistics)).ne_statistics
    · rcases List.mem_append.mp hrest with hevent | hlisteners
      · exact (hhooks hook (List.mem_of_mem_filter hevent)).ne_statistics
      · split at hlisteners
        · exact absurd hlisteners List.not_mem_nil
        · rw [List.mem_singleton.mp hlisteners]
          exact nofun

end Builder

namespace Session

variable {K V : Type} [DecidableEq K] [KeyText K] {b : Builder K V} {c : Cache K V}

/-- The trace of a session is a history of its chain, from the time when nothing was counted to
the statistics that it has. -/
theorem history_of_live (hbuild : b.build = .ok c) (hhooks : ∀ hook ∈ b.hooks, hook.Inert)
    (happenings : List (Happening K V)) :
    let s := live ⟨c, []⟩ happenings
    s.cache.hooks = c.hooks ∧ ∃ visits,
      History b.laterHooks {} c.store visits s.cache.ledger.trace s.cache.ledger.statistics
        s.cache.store := by
  intro s
  have hacts := live_acts ⟨c, []⟩ happenings
  have hnarrates := (hacts.deeds (Builder.engaged_build hbuild)).narrates
    (Builder.orderly_build hbuild hhooks)
  obtain ⟨visits, notes, htrace, hhistory⟩ := hnarrates.goes_on
  obtain ⟨-, -, hstatistics, hsilent⟩ := Builder.build_eq hbuild
  rw [hsilent, List.nil_append] at htrace
  rw [hstatistics, ← htrace] at hhistory
  exact ⟨hnarrates.hooks_eq, visits, hhistory⟩

/-- Every round of calls begins with the statistics and goes on stage by stage to the listeners;
whoever comes after the statistics sees what was counted before the operation, and in addition
the outcomes told so far. -/
theorem live_ordered (hbuild : b.build = .ok c) (hhooks : ∀ hook ∈ b.hooks, hook.Inert)
    (happenings : List (Happening K V)) :
    let s := live ⟨c, []⟩ happenings
    s.cache.hooks.hooks = Hook.statistics ::
        (b.hooks.filter (fun hook => hook.stage = .statistics) ++
          (b.hooks.filter (fun hook => hook.stage = .event) ++
            if b.listeners.isEmpty then [] else [Hook.listeners .event b.listeners])) ∧
      ∃ visits, History b.laterHooks {} c.store visits s.cache.ledger.trace
        s.cache.ledger.statistics s.cache.store := by
  obtain ⟨hsame, hhistory⟩ := history_of_live hbuild hhooks happenings
  refine ⟨?_, hhistory⟩
  rw [hsame]
  exact Builder.hooks_build hbuild

/-- The theorem for hooks that are registered in another order than that of their stages.  A read
finds an entry expired: it counts as expired when the one outcome is told, and as missed when the
other is. -/
theorem live_ordered_expired :
    let b : Builder String Nat :=
      { executor := some {}, defaultTimeout := some (.ofMillis 5), listeners := [.recorder]
        hooks := [.witness "late" .event, .recorder "early" .statistics] }
    ∃ c, b.build = .ok c ∧
      let s := live ⟨c, []⟩ [.request (.put "a" 1 {}), .request (.advance (.ofMillis 9)),
        .request (.getIfPresent "a")]
      (∃ visits, History b.laterHooks {} c.store visits s.cache.ledger.trace
        s.cache.ledger.statistics s.cache.store) ∧
        s.cache.hooks.hooks.map (·.name) = ["statistics", "early", "late", "event"] ∧
        (s.cache.ledger.trace.filterMap fun
          | .hookCalled "late" call [.sight] =>
              some (call.statistics.puts, call.statistics.expirations, call.statistics.misses)
          | _ => none) = [(1, 0, 0), (1, 1, 0), (1, 1, 1)] := by
  intro b
  have hinert : ∀ hook ∈ b.hooks, hook.Inert := by
    intro hook hmem
    rcases List.mem_cons.mp hmem with rfl | hrest
    · exact fun _ => rfl
    · rw [List.mem_singleton.mp hrest]
      exact fun _ => rfl
  exact ⟨_, rfl, (live_ordered (b := b) rfl hinert _).2, by decide +kernel, by decide +kernel⟩

end Session

end BoundedCache
