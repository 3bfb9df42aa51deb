import BoundedCache.Proofs.Cache.Failures
import BoundedCache.Proofs.Cache.Mirroring
import BoundedCache.Proofs.Gauges
import BoundedCache.Proofs.Session.Frozen
import BoundedCache.Proofs.Session.Retelling

/-!
# The metrics of a cache

Between operations the counters of the metrics are the statistics, the gauges show the store, and
the two counts of failures are those of the errors that were handed out and of the loads whose
loader failed.  This is so of every cache, whatever its hooks ask for, and after whatever turns
its tasks and jobs have had.
-/

namespace BoundedCache

namespace Cache

variable {K V : Type} [DecidableEq K] [KeyText K]

/-- The metrics agree with all that they are kept beside. -/
structure Metered (c : Cache K V) : Prop extends Mirrored c where
  /-- Below this bound the gauges are exact. -/
  entries_isNat : c.store.size < 2 ^ 53 →
    (Decimal.Parts.ofBits c.ledger.metrics.entries).IsNat c.store.size
  volume_isNat : c.store.shownVolume < 2 ^ 53 →
    (Decimal.Parts.ofBits c.ledger.metrics.volume).IsNat c.store.shownVolume
  loadFailure : c.ledger.metrics.loadFailure = c.failedLoads.length.toUInt64
  failed_nodup : c.failedLoads.Nodup
  failed_iff : ∀ handle : LoadHandle K, handle.id ∈ c.failedLoads ↔
    ∃ e : CacheError, c.answer? (.load handle) = some (.error e) ∧ e.kind = .loader
  /-- A pending load that ends by what its loader has come to has failed if that is an error. -/
  failed_settle : ∀ (task : LoadTask K V) outcome,
    c.desk.coordinator.isCurrent task.handle.key task.handle.id = true →
      (task.handle.id ∈ (c.settle task outcome).failedLoads ↔ ∃ shown, outcome = .error shown)

variable {c : Cache K V}

theorem metered_of (hmirrored : c.Mirrored) (hcounts : c.CountsFailures) (hnumbered : c.Numbered) :
    c.Metered where
  toMirrored := hmirrored
  entries_isNat hlt := hmirrored.entries ▸ Metrics.isNat_gaugeBits hlt
  volume_isNat hlt := hmirrored.volume ▸ Metrics.isNat_gaugeBits hlt
  loadFailure := hcounts
  failed_nodup := hnumbered.failedLoads_nodup
  failed_iff := hnumbered.mem_failedLoads_iff
  failed_settle task outcome hcurrent := by
    rcases c.settle_failedLoads task outcome hcurrent with
      ⟨shown, heq, hfailed, -⟩ | ⟨hnone, hfailed, -⟩
    · rw [hfailed]
      exact ⟨fun _ => ⟨shown, heq⟩, fun _ => List.mem_cons_self⟩
    · -- a load that is pending has no answer, and so it has not failed before
      refine ⟨fun hmem => ?_, fun ⟨shown, heq⟩ => absurd heq (hnone shown)⟩
      rw [hfailed, hnumbered.mem_failedLoads_iff] at hmem
      obtain ⟨e, hanswer, -⟩ := hmem
      obtain ⟨handles, started, hserves⟩ := hnumbered
      obtain ⟨load, hload, hid⟩ := Coordinator.isCurrent_iff.mp hcurrent
      have hunanswered := (hserves.waited _ load hload).unanswered
      rw [hid] at hunanswered
      exact absurd (hanswer.symm.trans hunanswered) nofun

end Cache

namespace Builder

variable {K V : Type} [DecidableEq K] {b : Builder K V} {c : Cache K V}

/-- Nothing has happened yet, and the gauges are set. -/
theorem metrics_build (h : b.build = .ok c) :
    c.Mirrored ∧ c.CountsFailures ∧ c.Numbered := by
  obtain ⟨executor, -, rfl⟩ := eq_of_build h
  exact ⟨⟨rfl, rfl, rfl, rfl, rfl, rfl, rfl, rfl, rfl, rfl, rfl, rfl⟩, rfl, [], [], .new _⟩

end Builder

namespace Session

variable {K V : Type} [DecidableEq K] [KeyText K] {b : Builder K V} {c : Cache K V}

/-- Whatever happens to a cache, its metrics agree with its statistics, its store, the errors that
were handed out, and the loads that failed. -/
theorem live_metered (hbuild : b.build = .ok c) (happenings : List (Happening K V)) :
    (live ⟨c, []⟩ happenings).cache.Metered := by
  obtain ⟨hmirrored, hcounts, hnumbered⟩ := Builder.metrics_build hbuild
  have hacts := live_acts ⟨c, []⟩ happenings
  refine Cache.metered_of ?_ ?_ ?_
  · -- the cache is its own mirror image, and so it goes the same way as that
    have hsame : (Retelling.mirror K V).session ⟨c, []⟩ = ⟨c, []⟩ :=
      congrArg (Session.mk · []) (Cache.mirrored_iff.mp hmirrored)
    have hlive := (live_retold (Retelling.mirror K V) ⟨c, []⟩ happenings).1
    rw [hsame] at hlive
    exact Cache.mirrored_iff.mpr (congrArg Session.cache hlive).symm
  · exact (hacts.deeds (Builder.engaged_build hbuild)).keeps Cache.Deed.countsFailures hcounts
  · exact hacts.moves.numbered hnumbered

/-- The theorem for a cache with a hook that fails before every read, and a loader that fails at
first.  Of the two loads one has failed, and the value of the other has evicted an entry. -/
theorem live_metered_failing :
    let b : Builder String Nat :=
      { maxEntries := 1, executor := some {}
        loader := some ⟨false, fun _ calls _ =>
          .finish (if calls = 0 then .error "no" else .value 7)⟩
        hooks := [.failing "broken" .event false (some .get) (.error (.message "no"))] }
    ∃ c, b.build = .ok c ∧
      let s := live ⟨c, []⟩
        [.request (.put "a" 1 {}), .request (.get "b" {}), .turn (.task 0),
          .request (.get "b" {}), .turn (.task 1)]
      s.cache.Metered ∧ s.cache.failedLoads = [0] ∧ s.cache.ledger.metrics.loadFailure = 1 ∧
        s.cache.ledger.metrics.hookFailure = 2 ∧ s.cache.ledger.metrics.evict = 1 ∧
        s.cache.ledger.metrics.entries = 0x3FF0000000000000 := by
  intro b
  refine ⟨_, rfl, live_metered (b := b) rfl _, ?_⟩
  decide +kernel

end Session

end BoundedCache
