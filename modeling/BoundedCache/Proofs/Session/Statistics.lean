import BoundedCache.Proofs.Session.History

/-!
# The statistics of a session balance

The outcomes of a run have exact counts, and these balance: the entries that are there and
those that are gone are those that were written, every read is a hit or a miss, and every
expired miss goes with an expiration.

The fields of the statistics are the residues of these counts.  Equations carry over to
the residues as they are; an order only does where the larger count still fits a word.
-/

namespace BoundedCache

/-! ## Exact counts and words -/

/-- The counts balance for a cache of so many entries, after so many replacements and
reads. -/
structure Tally.Balances (t : Tally) (size replaced readCount : Nat) : Prop where
  size_eq : size + t.gone = t.written + replaced
  reads_eq : t.hits + t.misses = readCount
  expired_le_misses : t.expiredMisses ≤ t.misses
  expired_le_expirations : t.expiredMisses ≤ t.expirations

namespace Tally.Balances

variable {t : Tally} {size replaced readCount : Nat}

theorem size_residue (h : t.Balances size replaced readCount) :
    UInt64.ofNat size = t.toStatistics.puts + t.toStatistics.loads + UInt64.ofNat replaced -
      t.toStatistics.replaces - t.toStatistics.removes - t.toStatistics.evictions -
      t.toStatistics.expirations := by
  have hsize := congrArg UInt64.ofNat h.size_eq
  simp only [gone, written, UInt64.ofNat_add] at hsize
  simp only [toStatistics]
  grind

theorem reads_residue (h : t.Balances size replaced readCount) :
    t.toStatistics.hits + t.toStatistics.misses = UInt64.ofNat readCount := by
  rw [← h.reads_eq, UInt64.ofNat_add]
  rfl

end Tally.Balances

namespace Session

variable {K V : Type} [DecidableEq K]

/-- A store that can be reached by replaying events has as many entries as came in and did
not leave. -/
theorem size_of_replay {s : Store K V} (h : s.Agrees) {events : List (Event K V)}
    (hreplay : Replay (fun _ => none) events s.contents) :
    s.size + leaves events = enters events := by
  have hentries := (Store.enumerates_get? h.distinct).map (·.value)
  have hlength := hreplay.length_eq .nil hentries
  rw [List.length_map, Store.byKey, List.length_map, List.length_nil, Nat.zero_add] at hlength
  exact hlength

variable [KeyText K] {b : Builder K V} {c : Cache K V}

/-- The statistics of a run are the residues of counts that balance: of the outcomes that
every hook of the chain was told, in order. -/
theorem live_balances (hbuild : b.build = .ok c) (hstart : b.policy.Starts)
    (hhooks : ∀ hook ∈ b.hooks, hook.Inert) (happenings : List (Happening K V)) :
    let s := live ⟨c, []⟩ happenings
    ∃ outcomes,
      s.cache.ledger.told = outcomes.flatMap (List.replicate c.hooks.hooks.length) ∧
        s.cache.ledger.statistics = (Tally.total outcomes).toStatistics ∧
        (Tally.total outcomes).Balances s.cache.store.size
          (countOver replacedCount ⟨c, []⟩ happenings)
          (countOver readCount ⟨c, []⟩ happenings) := by
  intro s
  obtain ⟨hstore, -, hstatistics, htrace⟩ := Builder.build_eq hbuild
  obtain ⟨outcomes, haccounts, hreads, hreplaced⟩ := live_accounts hbuild hstart hhooks happenings
  have hreplay := haccounts.reports.replay
  rw [hstore] at hreplay
  obtain ⟨hhits, hexpired⟩ := Tally.reads_total outcomes
  refine ⟨outcomes, ?_, ?_, ?_, ?_, hexpired, haccounts.reports.expired_le⟩
  · have htold := haccounts.tells.told_eq
    have hsilent : c.ledger.told = [] := by
      unfold Ledger.told
      rw [htrace]
      rfl
    rwa [hsilent, List.nil_append] at htold
  · rw [haccounts.tells.statistics_eq, hstatistics]
    exact (Tally.foldl_record {} outcomes).trans (congrArg _ (Tally.zero_add _))
  · have hsize := size_of_replay haccounts.reports.agrees hreplay
    have hwritten := Tally.written_total outcomes
    rw [Tally.gone_total, ← hreplaced, hwritten]
    exact hsize
  · rw [hhits, hreads]

/-- The fields of the statistics balance modulo the size of a word: the entries that are
there are those written or put in by a replacement, less those gone, and every read that
found the cache running is a hit or a miss.  The exact counts behind the fields have no
more expired misses than misses or expirations, and so have the fields until the larger
of the two wraps. -/
theorem run_statistics (hbuild : b.build = .ok c) (hstart : b.policy.Starts)
    (hhooks : ∀ hook ∈ b.hooks, hook.Inert) (happenings : List (Happening K V)) :
    let s := live ⟨c, []⟩ happenings
    let stats := s.cache.ledger.statistics
    let replaced := countOver replacedCount ⟨c, []⟩ happenings
    let found := countOver readCount ⟨c, []⟩ happenings
    .ofNat s.cache.store.size = stats.puts + stats.loads + .ofNat replaced - stats.replaces -
        stats.removes - stats.evictions - stats.expirations ∧
      stats.hits + stats.misses = .ofNat found ∧
      ∃ outcomes,
        s.cache.ledger.told = outcomes.flatMap (List.replicate c.hooks.hooks.length) ∧
          stats = (Tally.total outcomes).toStatistics ∧
          (Tally.total outcomes).Balances s.cache.store.size replaced found ∧
          ((Tally.total outcomes).misses < UInt64.size → stats.expiredMisses ≤ stats.misses) ∧
          ((Tally.total outcomes).expirations < UInt64.size →
            stats.expiredMisses ≤ stats.expirations) := by
  intro s stats replaced found
  obtain ⟨outcomes, htold, hstats, hbalances⟩ := live_balances hbuild hstart hhooks happenings
  have hfields : stats = (Tally.total outcomes).toStatistics := hstats
  rw [hfields]
  refine ⟨hbalances.size_residue, hbalances.reads_residue, outcomes, htold, rfl, hbalances, ?_, ?_⟩
  · intro hfits
    have hle := hbalances.expired_le_misses
    exact (UInt64.ofNat_le_iff_le (Nat.lt_of_le_of_lt hle hfits) hfits).mpr hle
  · intro hfits
    have hle := hbalances.expired_le_expirations
    exact (UInt64.ofNat_le_iff_le (Nat.lt_of_le_of_lt hle hfits) hfits).mpr hle

/-- If every hook is told the same, what the hooks are told says what the outcomes were. -/
theorem flatMap_replicate_inj {α : Type} {n : Nat} (hn : 0 < n) {xs ys : List α}
    (h : xs.flatMap (List.replicate n) = ys.flatMap (List.replicate n)) : xs = ys := by
  obtain ⟨n, rfl⟩ := Nat.exists_eq_add_one_of_ne_zero (Nat.ne_of_gt hn)
  induction xs generalizing ys with
  | nil =>
      cases ys with
      | nil => rfl
      | cons y ys => simp [List.replicate_succ] at h
  | cons x xs ih =>
      cases ys with
      | nil => simp [List.replicate_succ] at h
      | cons y ys =>
          have hhead : x = y := by
            simpa [List.replicate_succ] using congrArg List.head? h
          subst hhead
          rw [List.flatMap_cons, List.flatMap_cons] at h
          rw [ih (List.append_cancel_left h)]

/-- The theorem for a cache of one entry in which an entry is replaced and evicted, another is
found expired, and a load brings a third when it has its turn. -/
theorem run_statistics_single :
    let b : Builder String Nat :=
      { maxEntries := 1, executor := some {}, defaultTimeout := some (.ofMillis 5)
        hooks := [.recorder "recorder" .event]
        loader := some ⟨false, fun _ _ _ => .finish (.value 30)⟩ }
    let happenings : List (Happening String Nat) :=
      [.request (.put "a" 10 {}), .request (.replace "a" 11), .request (.put "b" 20 {}),
        .request (.advance (.ofMillis 9)), .request (.getIfPresent "b"), .request (.forceLoad "c"),
        .turn (.task 0)]
    ∃ c, b.build = .ok c ∧
      let s := live ⟨c, []⟩ happenings
      let stats := s.cache.ledger.statistics
      s.cache.store.size = 1 ∧
        .ofNat s.cache.store.size = stats.puts + stats.loads +
            .ofNat (countOver replacedCount ⟨c, []⟩ happenings) - stats.replaces - stats.removes -
              stats.evictions - stats.expirations ∧
        stats.hits + stats.misses = .ofNat (countOver readCount ⟨c, []⟩ happenings) ∧
        stats.expiredMisses ≤ stats.misses ∧ stats.expiredMisses ≤ stats.expirations := by
  intro b happenings
  have hinert : ∀ hook ∈ b.hooks, hook.Inert := by
    intro hook hhook
    rw [List.mem_singleton.mp hhook]
    exact fun _ => rfl
  obtain ⟨c, hbuild, hhooks, htold, hone⟩ : ∃ c, b.build = .ok c ∧ c.hooks.hooks.length = 2 ∧
      (live ⟨c, []⟩ happenings).cache.ledger.told =
        (let first : Entry String Nat := .new "a" 10 {} (some 5) 0
        let second := first.update 11 {} (some 5) 0
        let third : Entry String Nat := .new "b" 20 {} (some 5) 0
        [.put .user ⟨none, first, []⟩, .replace first second [], .put .user ⟨none, third, [second]⟩,
          .expire [third], .getMiss "b" true,
          .put .loader ⟨none, .new "c" 30 {} (some 14) 9, []⟩]).flatMap (List.replicate 2) ∧
      (live ⟨c, []⟩ happenings).cache.store.size = 1 :=
    ⟨_, rfl, rfl, by decide +kernel, by decide +kernel⟩
  obtain ⟨hsize, hreads, outcomes, houtcomes, -, -, hmisses, hexpirations⟩ :=
    run_statistics hbuild (.builtIn .lru) hinert happenings
  rw [hhooks] at houtcomes
  have hexact := flatMap_replicate_inj Nat.two_pos (houtcomes.symm.trans htold)
  subst hexact
  exact ⟨c, hbuild, hone, hsize, hreads, hmisses (by decide), hexpirations (by decide)⟩

end Session

end BoundedCache
