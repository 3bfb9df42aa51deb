import BoundedCache.Outcome

/-!
# Metrics

The metrics of a cache are eleven counters, four counts of measured durations and
two gauges, each known by a key that names the cache.  Counters are words of 64
bits and wrap; a gauge holds what it was last set to, which is a double.
-/

namespace BoundedCache

/-- The metrics at one moment. -/
structure Metrics where
  hit : UInt64 := 0
  miss : UInt64 := 0
  put : UInt64 := 0
  load : UInt64 := 0
  loadFailure : UInt64 := 0
  replace : UInt64 := 0
  remove : UInt64 := 0
  evict : UInt64 := 0
  expire : UInt64 := 0
  clear : UInt64 := 0
  hookFailure : UInt64 := 0
  getDurations : Nat := 0
  putDurations : Nat := 0
  removeDurations : Nat := 0
  loadDurations : Nat := 0
  /-- The gauges, by the bits of their doubles. -/
  entries : UInt64 := 0
  volume : UInt64 := 0
  deriving DecidableEq, Repr, Inhabited

namespace Metrics

/-- One more write from `origin`. -/
def countOrigin (m : Metrics) : Origin → Metrics
  | .user => { m with put := m.put + 1 }
  | .loader => { m with load := m.load + 1 }

/-- One more write. -/
def countWritten {K V : Type} (m : Metrics) (origin : Origin) (w : Written K V) : Metrics :=
  let m := m.countOrigin origin
  { m with
    replace := m.replace + w.old.toList.length.toUInt64
    evict := m.evict + w.evicted.length.toUInt64 }

/-- The counters after an outcome. -/
def count {K V : Type} (m : Metrics) : Outcome K V → Metrics
  | .clear removed =>
      { m with clear := m.clear + 1, remove := m.remove + removed.length.toUInt64 }
  | .put origin written => m.countWritten origin written
  | .putAll origin puts => puts.foldl (fun m written => m.countWritten origin written) m
  | .remove _ removed => { m with remove := m.remove + removed.toList.length.toUInt64 }
  | .removeAll removed => { m with remove := m.remove + removed.length.toUInt64 }
  | .replace _ _ evicted =>
      { m with replace := m.replace + 1, evict := m.evict + evicted.length.toUInt64 }
  | .trim evicted => { m with evict := m.evict + evicted.length.toUInt64 }
  | .purge expired evicted =>
      { m with
        expire := m.expire + expired.length.toUInt64
        evict := m.evict + evicted.length.toUInt64 }
  | .expire expired => { m with expire := m.expire + expired.length.toUInt64 }
  | .getHit _ => { m with hit := m.hit + 1 }
  | .getMiss _ _ => { m with miss := m.miss + 1 }

/-- One more measured duration of an operation, for those that are measured. -/
def measure (m : Metrics) : Operation → Metrics
  | .get => { m with getDurations := m.getDurations + 1 }
  | .put | .putAll | .replace => { m with putDurations := m.putDurations + 1 }
  | .remove | .removeAll => { m with removeDurations := m.removeDurations + 1 }
  | .clear | .trim | .purge | .expire => m

/-- The metrics after an outcome of an operation. -/
def record {K V : Type} (m : Metrics) (token : Token) (outcome : Outcome K V) : Metrics :=
  (m.count outcome).measure token.operation

/-- What a gauge holds that is set to a number: the bits of the nearest double. -/
def gaugeBits (n : Nat) : UInt64 := n.toUInt64.toFloat.toBits

/-- The metrics with the gauges set to what a store holds. -/
def gauge {K V : Type} [DecidableEq K] (m : Metrics) (s : Store K V) : Metrics :=
  { m with entries := gaugeBits s.size, volume := gaugeBits s.shownVolume }

/-- The key of a metric: its name, the name of the cache, and one more label. -/
def key (metric cache label value : String) : String :=
  metric ++ "\x7bname=" ++ cache ++ "," ++ label ++ "=" ++ value ++ "\x7d"

/-- The counters with their keys. -/
def counters (m : Metrics) (cache : String) : List (String × UInt64) :=
  [("hit", m.hit), ("miss", m.miss), ("put", m.put), ("load", m.load),
    ("load_failure", m.loadFailure), ("replace", m.replace), ("remove", m.remove),
    ("evict", m.evict), ("expire", m.expire), ("clear", m.clear),
    ("hook_failure", m.hookFailure)].map fun (op, n) => (key "cachet_op_total" cache "op" op, n)

/-- The counts of measured durations with their keys. -/
def durations (m : Metrics) (cache : String) : List (String × Nat) :=
  [("get", m.getDurations), ("put", m.putDurations), ("remove", m.removeDurations),
    ("load", m.loadDurations)].map fun (op, n) => (key "cachet_op_duration" cache "op" op, n)

/-- The gauges with their keys, as the bits of doubles. -/
def gauges (m : Metrics) (cache : String) : List (String × UInt64) :=
  [("entries", m.entries), ("volume", m.volume)].map fun (kind, bits) =>
    (key "cachet_usage" cache "kind" kind, bits)

end Metrics

end BoundedCache
