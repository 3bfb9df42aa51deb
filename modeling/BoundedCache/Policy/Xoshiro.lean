import BoundedCache.Policy.Generator

/-!
# A seeded generator

The generator is xoshiro256++, its four words filled by SplitMix64 from a seed.
`below` turns 32-bit draws into a position under a bound by widening
multiplication, with one more draw where the fraction leaves the carry open.
-/

namespace BoundedCache

/-- The four words of the generator. -/
structure Xoshiro where
  s0 : UInt64
  s1 : UInt64
  s2 : UInt64
  s3 : UInt64
  deriving DecidableEq, Repr, Inhabited

namespace Xoshiro

/-- One SplitMix64 output: the scrambled value of an advanced counter. -/
def scramble (counter : UInt64) : UInt64 :=
  let z := (counter ^^^ (counter >>> 30)) * 0xbf58476d1ce4e5b9
  let z := (z ^^^ (z >>> 27)) * 0x94d049bb133111eb
  z ^^^ (z >>> 31)

/-- The generator whose words are four successive outputs from `seed`. -/
def ofSeed (seed : UInt64) : Xoshiro :=
  let step : UInt64 := 0x9e3779b97f4a7c15
  ⟨scramble (seed + step), scramble (seed + 2 * step), scramble (seed + 3 * step),
    scramble (seed + 4 * step)⟩

/-- Rotate left by `n` bits, `0 < n < 64`. -/
def rotate (x n : UInt64) : UInt64 := (x <<< n) ||| (x >>> (64 - n))

/-- One step: 64 random bits. -/
def next (g : Xoshiro) : UInt64 × Xoshiro :=
  let word := rotate (g.s0 + g.s3) 23 + g.s0
  let t := g.s1 <<< 17
  let s2 := g.s2 ^^^ g.s0
  let s3 := g.s3 ^^^ g.s1
  let s1 := g.s1 ^^^ s2
  let s0 := g.s0 ^^^ s3
  (word, ⟨s0, s1, s2 ^^^ t, rotate s3 45⟩)

/-- The upper 32 bits of one step. -/
def next32 (g : Xoshiro) : Nat × Xoshiro :=
  let (word, g) := g.next
  ((word >>> 32).toNat, g)

theorem next32_lt (g : Xoshiro) : g.next32.1 < UInt32.size := by
  simp only [next32, UInt64.toNat_shiftRight]
  have hword := g.next.1.toNat_lt
  rw [show (32 : UInt64).toNat % 64 = 32 from rfl, Nat.shiftRight_eq_div_pow, UInt32.size]
  omega

/-- A position below `n`, for `0 < n < UInt32.size`. -/
def below (g : Xoshiro) (n : Nat) : Nat × Xoshiro :=
  let (x, g) := g.next32
  let high := x * n / UInt32.size
  let low := x * n % UInt32.size
  if UInt32.size < low + n then
    let (y, g) := g.next32
    (if UInt32.size ≤ low + y * n / UInt32.size then high + 1 else high, g)
  else (high, g)

/-- The correction for the carry never leads out of the range. -/
theorem below_lt (g : Xoshiro) {n : Nat} (hn : 0 < n) : (g.below n).1 < n := by
  have hscaled : ∀ x : Nat, x < UInt32.size → x * n + n ≤ UInt32.size * n := by
    intro x hx
    rw [← Nat.succ_mul]
    exact Nat.mul_le_mul_right n hx
  have hx := hscaled _ g.next32_lt
  have hy := hscaled _ g.next32.2.next32_lt
  rw [UInt32.size] at hx hy
  simp only [below, UInt32.size]
  split
  · split
    · simp only
      omega
    · simp only
      omega
  · simp only
    omega

/-- The words as the state of a generator. -/
def words (g : Xoshiro) : List UInt64 := [g.s0, g.s1, g.s2, g.s3]

/-- The generator with these words; with another number of them it is at rest, all zero. -/
def ofWords : List UInt64 → Xoshiro
  | [s0, s1, s2, s3] => ⟨s0, s1, s2, s3⟩
  | _ => default

end Xoshiro

/-- The seeded generator that draws by `Xoshiro.below`. -/
def Generator.ofSeed (seed : UInt64) : Generator where
  words := (Xoshiro.ofSeed seed).words
  draw words n := ((Xoshiro.ofWords words).below n).map id Xoshiro.words
  draw_lt words _ hbound := (Xoshiro.ofWords words).below_lt hbound

end BoundedCache
