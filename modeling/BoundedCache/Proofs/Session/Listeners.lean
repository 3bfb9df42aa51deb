import BoundedCache.Proofs.Session.History

/-!
# Listeners can follow a cache

What a listener hears, whatever is asked of the cache and whichever tasks and jobs the executor
runs in between, can be replayed on an empty map and leads to the contents of the store.
-/

namespace BoundedCache.Session

variable {K V : Type} [DecidableEq K] [KeyText K] {b : Builder K V} {c : Cache K V}

/-- Every listener hears events that lead from nothing to the contents of the store,
whatever happens to the cache and whatever policy, limits and rule of expiration it has: an
entry comes in only where there is none, and leaves only as it is. -/
theorem run_replay (hbuild : b.build = .ok c) (hstart : b.policy.Starts)
    (hhooks : ∀ hook ∈ b.hooks, hook.Inert) (happenings : List (Happening K V)) {i : Nat}
    (hi : i < b.listeners.length) :
    Replay (fun _ => none) ((live ⟨c, []⟩ happenings).cache.ledger.heardBy i)
      (live ⟨c, []⟩ happenings).cache.store.contents := by
  obtain ⟨hstore, -, -, htrace⟩ := Builder.build_eq hbuild
  obtain ⟨outcomes, haccounts, -, -⟩ := live_accounts hbuild hstart hhooks happenings
  have hreplay := haccounts.reports.replay
  have hheard := haccounts.tells.heard_eq i hi
  have hsilent : c.ledger.heardBy i = [] := by
    unfold Ledger.heardBy
    rw [htrace]
    rfl
  rw [hstore] at hreplay
  rw [hheard, hsilent, List.nil_append]
  exact hreplay

/-- The theorem for a cache of one entry, whose listener hears an entry replaced, one evicted, one
that is too large for the cache come and go, and one that a load brings when it has its turn. -/
theorem run_replay_single :
    let b : Builder String Nat :=
      { maxEntries := 1, maxVolume := 5, executor := some {}, listeners := [.recorder]
        hooks := [.recorder "recorder" .event]
        loader := some ⟨false, fun _ _ _ => .finish (.value 30)⟩ }
    let happenings : List (Happening String Nat) :=
      [.request (.put "a" 10 {}), .request (.replace "a" 11), .request (.put "b" 20 {}),
        .request (.put "b" 21 { size := 9 }), .request (.forceLoad "c"), .turn (.task 0)]
    ∃ c, b.build = .ok c ∧
      let s := live ⟨c, []⟩ happenings
      (s.cache.ledger.heardBy 0).length = 9 ∧ s.cache.store.keys = ["c"] ∧
        Replay (fun _ => none) (s.cache.ledger.heardBy 0) s.cache.store.contents := by
  intro b happenings
  have hinert : ∀ hook ∈ b.hooks, hook.Inert := by
    intro hook hhook
    rw [List.mem_singleton.mp hhook]
    exact fun _ => rfl
  refine ⟨_, rfl, by decide +kernel, by decide +kernel, ?_⟩
  exact run_replay (b := b) rfl (.builtIn .lru) hinert happenings Nat.one_pos

end BoundedCache.Session
