import BoundedCache.Proofs.Cache.Retelling
import BoundedCache.Proofs.Rounds

/-!
# The metrics mirror what they are kept beside

The counters of the metrics are kept beside the statistics, the count of failures beside the
errors that are handed out, and the gauges beside the store; none of them is ever read.  One may
as well copy them from there each time: that is a `Retelling` with the same hooks, and so a cache
that agrees with its mirror image at first (`Mirrored`) agrees with it ever after.
-/

namespace BoundedCache

variable {K V : Type}

/-! ## Counters -/

namespace Metrics

/-- The metrics with the counters of the statistics, a count of failures, and gauges. -/
def showing (m : Metrics) (failures entries volume : UInt64) (s : Statistics) : Metrics :=
  { m with
    hit := s.hits
    miss := s.misses
    put := s.puts
    load := s.loads
    replace := s.replaces
    remove := s.removes
    evict := s.evictions
    expire := s.expirations
    clear := s.clears
    hookFailure := failures
    entries := entries
    volume := volume }

variable (m : Metrics) (failures entries volume : UInt64) (s : Statistics)

theorem countWritten_showing (origin : Origin) (w : Written K V) :
    (m.showing failures entries volume s).countWritten origin w =
      (m.countWritten origin w).showing failures entries volume (s.countWritten origin w) := by
  cases origin <;> rfl

/-- What counts for the statistics counts for the metrics. -/
theorem count_showing (outcome : Outcome K V) :
    (m.showing failures entries volume s).count outcome =
      (m.count outcome).showing failures entries volume (s.record outcome) := by
  cases outcome with
  | put origin written => exact countWritten_showing m failures entries volume s origin written
  | putAll origin puts =>
      unfold count Statistics.record
      dsimp only
      induction puts generalizing m s with
      | nil => rfl
      | cons written rest ih =>
          rw [List.foldl_cons, countWritten_showing, ih, List.foldl_cons, List.foldl_cons]
  | _ => rfl

theorem record_showing (token : Token) (outcome : Outcome K V) :
    (m.showing failures entries volume s).record token outcome =
      (m.record token outcome).showing failures entries volume (s.record outcome) := by
  unfold record
  rw [count_showing]
  cases token.operation <;> rfl

end Metrics

/-! ## Failures -/

namespace Ledger

/-- The ledger with the metrics copied from what they are kept beside. -/
def mirror (s : Store K V) (l : Ledger K V) : Ledger K V :=
  { l with
    metrics :=
      l.metrics.showing l.reported.length.toUInt64 (Metrics.gaugeBits s.size)
        (Metrics.gaugeBits s.shownVolume) l.statistics }

theorem mirror_note (s : Store K V) (l : Ledger K V) {n : Note K V}
    (hnone : Note.reported? n = none) : (l.mirror s).note n = (l.note n).mirror s := by
  have hsame : (l.note n).reported = l.reported := by
    rw [reported_note, hnone]
    exact List.append_nil _
  unfold mirror
  rw [hsame]
  rfl

theorem mirror_noteCalls (s : Store K V) (l : Ledger K V) (calls : List (ListenerCall K V)) :
    (l.mirror s).noteCalls calls = (l.noteCalls calls).mirror s := by
  unfold mirror
  rw [reported_noteCalls]
  rfl

theorem mirror_report (s : Store K V) (l : Ledger K V) (hook : Hook K V) (token : Token)
    (failure : Option HookFailure) :
    (l.mirror s).report hook token failure = (l.report hook token failure).mirror s := by
  cases failure with
  | none => rfl
  | some failure =>
      have hone : (l.report hook token (some failure)).reported.length.toUInt64 =
          l.reported.length.toUInt64 + 1 := by
        rw [report, reported_note, List.length_append]
        exact UInt64.ofNat_add _ _
      unfold mirror
      rw [hone]
      rfl

theorem mirror_recorded (s : Store K V) (l : Ledger K V) (token : Token) (outcome : Outcome K V) :
    (l.mirror s).recorded token outcome = (l.recorded token outcome).mirror s := by
  unfold mirror recorded
  dsimp only
  rw [Metrics.record_showing]
  rfl

theorem rewrites_mirror (s : Store K V) : Rewrites (mirror s : Ledger K V → Ledger K V) where
  callOf_eq _ _ _ _ := rfl
  made_eq _ := rfl
  called_eq l _ _ _ := mirror_note s { l with hookCalls := l.hookCalls + 1 } rfl
  recorded_eq := mirror_recorded s
  noteCalls_eq := mirror_noteCalls s
  report_eq := mirror_report s

end Ledger

/-- The same hooks, and metrics that are copied. -/
def Retelling.mirror (K V : Type) [DecidableEq K] : Retelling K V where
  toRewording := .rewriting Ledger.mirror Ledger.rewrites_mirror
    (fun l hsize hvolume => by rw [Ledger.mirror, hsize, hvolume]; rfl) fun _ _ _ => rfl
  loaderCalled_eq s l key forced attributes := Ledger.mirror_note s l rfl
  loadResumed_eq s l key := Ledger.mirror_note s l rfl
  countLoad_eq s l := rfl
  countFailure_eq s l := rfl

/-! ## A cache and its mirror image -/

namespace Cache

variable [DecidableEq K] {c : Cache K V}

/-- The metrics are what they are kept beside, apart from those of the loads. -/
structure Mirrored (c : Cache K V) : Prop where
  hit : c.ledger.metrics.hit = c.ledger.statistics.hits
  miss : c.ledger.metrics.miss = c.ledger.statistics.misses
  put : c.ledger.metrics.put = c.ledger.statistics.puts
  load : c.ledger.metrics.load = c.ledger.statistics.loads
  replace : c.ledger.metrics.replace = c.ledger.statistics.replaces
  remove : c.ledger.metrics.remove = c.ledger.statistics.removes
  evict : c.ledger.metrics.evict = c.ledger.statistics.evictions
  expire : c.ledger.metrics.expire = c.ledger.statistics.expirations
  clear : c.ledger.metrics.clear = c.ledger.statistics.clears
  hookFailure : c.ledger.metrics.hookFailure = c.ledger.reported.length.toUInt64
  entries : c.ledger.metrics.entries = Metrics.gaugeBits c.store.size
  volume : c.ledger.metrics.volume = Metrics.gaugeBits c.store.shownVolume

/-- So it is if and only if copying them changes nothing. -/
theorem mirrored_iff : c.Mirrored ↔ (Retelling.mirror K V).cache c = c := by
  constructor
  · intro h
    have hmetrics : c.ledger.metrics.showing c.ledger.reported.length.toUInt64
        (Metrics.gaugeBits c.store.size) (Metrics.gaugeBits c.store.shownVolume)
        c.ledger.statistics = c.ledger.metrics := by
      unfold Metrics.showing
      rw [← h.hit, ← h.miss, ← h.put, ← h.load, ← h.replace, ← h.remove, ← h.evict, ← h.expire,
        ← h.clear, ← h.hookFailure, ← h.entries, ← h.volume]
    show ({ c with
      hooks := ⟨c.hooks.hooks.map id⟩
      ledger := { c.ledger with metrics := _ } } : Cache K V) = c
    rw [hmetrics, List.map_id]
  · intro heq
    have hmetrics := congrArg (fun c => c.ledger.metrics) heq.symm
    exact ⟨congrArg Metrics.hit hmetrics, congrArg Metrics.miss hmetrics,
      congrArg Metrics.put hmetrics, congrArg Metrics.load hmetrics,
      congrArg Metrics.replace hmetrics, congrArg Metrics.remove hmetrics,
      congrArg Metrics.evict hmetrics, congrArg Metrics.expire hmetrics,
      congrArg Metrics.clear hmetrics, congrArg Metrics.hookFailure hmetrics,
      congrArg Metrics.entries hmetrics, congrArg Metrics.volume hmetrics⟩

end Cache

end BoundedCache
