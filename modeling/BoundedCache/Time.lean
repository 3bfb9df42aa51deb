/-!
# Times, durations and deadlines

Times are milliseconds and live below `UInt64.size`; the clock wraps there.  Durations
are kept to the nanosecond and cut to whole milliseconds where they meet a time.
A deadline saturates: it is never later than the last time there is.
-/

namespace BoundedCache

/-- The largest number of 64 bits.  As a time it is the last one, as a limit it
means that there is none. -/
def unbounded : Nat := UInt64.size - 1

/-- A length of time in nanoseconds. -/
structure Duration where
  nanos : Nat
  deriving DecidableEq, Repr, Inhabited

namespace Duration

/-- The duration of `ms` milliseconds. -/
def ofMillis (ms : Nat) : Duration := ⟨ms * 1000000⟩

/-- The duration of `secs` seconds and `nanos` nanoseconds. -/
def ofParts (secs nanos : Nat) : Duration := ⟨secs * 1000000000 + nanos⟩

/-- Whole milliseconds. -/
def millis (d : Duration) : Nat := d.nanos / 1000000

/-- Whether the duration is nothing at all. -/
def isZero (d : Duration) : Bool := d.nanos == 0

end Duration

/-- The time `d` after `now`, or the last time there is. -/
def deadline (now : Nat) (d : Duration) : Nat :=
  min (now + min d.millis unbounded) unbounded

/-- The clock `d` later; it wraps. -/
def advanceClock (now : Nat) (d : Duration) : Nat :=
  (now + d.millis % UInt64.size) % UInt64.size

end BoundedCache
