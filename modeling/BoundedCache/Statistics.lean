import BoundedCache.Format
import BoundedCache.Outcome

/-!
# Statistics

Twelve counters of what has happened to a cache, kept by counting its outcomes.
They are words of 64 bits and wrap.
-/

namespace BoundedCache

/-- The counters at one moment. -/
structure Statistics where
  hits : UInt64 := 0
  misses : UInt64 := 0
  expiredMisses : UInt64 := 0
  puts : UInt64 := 0
  loads : UInt64 := 0
  replaces : UInt64 := 0
  removes : UInt64 := 0
  evictions : UInt64 := 0
  expirations : UInt64 := 0
  clears : UInt64 := 0
  trims : UInt64 := 0
  purges : UInt64 := 0
  deriving DecidableEq, Repr, Inhabited

namespace Statistics

/-! ## Counting -/

/-- One more write from `origin`. -/
def countOrigin (s : Statistics) : Origin → Statistics
  | .user => { s with puts := s.puts + 1 }
  | .loader => { s with loads := s.loads + 1 }

/-- `n` more replaced entries. -/
def countReplaced (s : Statistics) (n : Nat) : Statistics :=
  { s with replaces := s.replaces + n.toUInt64 }

/-- `n` more removed entries. -/
def countRemoved (s : Statistics) (n : Nat) : Statistics :=
  { s with removes := s.removes + n.toUInt64 }

/-- `n` more victims. -/
def countEvicted (s : Statistics) (n : Nat) : Statistics :=
  { s with evictions := s.evictions + n.toUInt64 }

/-- `n` more expired entries. -/
def countExpired (s : Statistics) (n : Nat) : Statistics :=
  { s with expirations := s.expirations + n.toUInt64 }

/-- One more write. -/
def countWritten {K V : Type} (s : Statistics) (origin : Origin) (w : Written K V) : Statistics :=
  ((s.countOrigin origin).countReplaced w.old.toList.length).countEvicted w.evicted.length

/-- The counters after an outcome. -/
def record {K V : Type} (s : Statistics) : Outcome K V → Statistics
  | .clear removed => { s with clears := s.clears + 1 }.countRemoved removed.length
  | .put origin written => s.countWritten origin written
  | .putAll origin puts => puts.foldl (fun s written => s.countWritten origin written) s
  | .remove _ removed => s.countRemoved removed.toList.length
  | .removeAll removed => s.countRemoved removed.length
  | .replace _ _ evicted => (s.countReplaced 1).countEvicted evicted.length
  | .trim evicted => { s with trims := s.trims + 1 }.countEvicted evicted.length
  | .purge expired evicted =>
      ({ s with purges := s.purges + 1 }.countExpired expired.length).countEvicted evicted.length
  | .expire expired => s.countExpired expired.length
  | .getHit _ => { s with hits := s.hits + 1 }
  | .getMiss _ expired =>
      { s with
        misses := s.misses + 1
        expiredMisses := if expired then s.expiredMisses + 1 else s.expiredMisses }

/-- Hits among all reads, as the bits of a double; zero without any read. -/
def hitRatio (s : Statistics) : UInt64 :=
  let total := s.hits + s.misses
  if total = 0 then 0 else (s.hits.toFloat / total.toFloat).toBits

/-! ## Statistics as documents -/

/-- The names of the counters, in their order. -/
def fieldNames : List String :=
  ["hits", "misses", "expired_misses", "puts", "loads", "replaces", "removes", "evictions",
    "expirations", "clears", "trims", "purges"]

/-- The counters in their order. -/
def values (s : Statistics) : List UInt64 :=
  [s.hits, s.misses, s.expiredMisses, s.puts, s.loads, s.replaces, s.removes, s.evictions,
    s.expirations, s.clears, s.trims, s.purges]

/-- The counters from a list of all of them in their order. -/
def ofValues? : List UInt64 → Option Statistics
  | [hits, misses, expiredMisses, puts, loads, replaces, removes, evictions, expirations, clears,
      trims, purges] =>
      some ⟨hits, misses, expiredMisses, puts, loads, replaces, removes, evictions, expirations,
        clears, trims, purges⟩
  | _ => none

/-- The counters as an object. -/
def toDocument (s : Statistics) : Document :=
  .object (fieldNames.zip (s.values.map Document.ofWord))

/-- The counters of a document, all of which must be there. -/
def ofDocument? (F : Format) (d : Document) : Option Statistics := do
  let given ← F.record? false fieldNames d
  ofValues? (← given.mapM fun value => value.bind F.word?)

end Statistics

end BoundedCache
