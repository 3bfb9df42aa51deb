/-!
# The fewest digits that read back

A double stands for every real number that rounds to it.  Among the decimals in
that interval this module finds one with the fewest digits, and of those the
nearest to the double, an exact tie going up.  All arithmetic is on natural
numbers.

A positive double is `mantissa * 2 ^ exponent`.  In units of a quarter of its
last place the interval reaches from `2` below to `2` above, or from `1` below
where the exponent changes, and holds its ends exactly if the mantissa is even.
-/

namespace BoundedCache.Decimal

/-- A positive double, `mantissa * 2 ^ (exponent - 1076)`, so that the exponent is
natural and two bits are left below the last place of the smallest double. -/
structure Binary where
  mantissa : Nat
  exponent : Nat
  /-- Whether the next smaller double is nearer than the next larger one. -/
  narrow : Bool
  deriving DecidableEq, Repr

/-- What the 64 bits of a double stand for. -/
inductive Parts where
  | nan
  | infinite (negative : Bool)
  | zero (negative : Bool)
  | finite (negative : Bool) (value : Binary)
  deriving DecidableEq, Repr

/-- Take the bits of a double apart. -/
def Parts.ofBits (bits : UInt64) : Parts :=
  let n := bits.toNat
  let negative := n >>> 63 == 1
  let exponent := (n >>> 52) % 0x800
  let fraction := n % 0x10000000000000
  if exponent = 2047 then
    if fraction = 0 then .infinite negative else .nan
  else if exponent = 0 then
    if fraction = 0 then .zero negative
    else .finite negative ⟨fraction, 2, false⟩
  else .finite negative ⟨0x10000000000000 + fraction, exponent + 1, fraction = 0 && 1 < exponent⟩

/-- A decimal, `0.d₁d₂…dₙ * 10 ^ point`, by its digits and the place of its
point. -/
structure Digits where
  digits : List Nat
  point : Int
  deriving DecidableEq, Repr

/-- The value of `quarters` quarters of the last place, on the grid of
`10 ^ grid`, as a fraction. -/
def scale (exponent : Nat) (grid : Int) (quarters : Nat) : Nat × Nat :=
  let up := Nat.pow 10 (-grid).toNat
  let down := Nat.pow 10 grid.toNat
  ((quarters <<< (exponent - 1078)) * up, (1 <<< (1078 - exponent)) * down)

/-- The least `point` from `start` on with the value below `10 ^ point`, trying
`fuel` of them. -/
def pointFrom (b : Binary) : Nat → Int → Int
  | 0, point => point
  | fuel + 1, point =>
      let (n, d) := scale b.exponent point (4 * b.mantissa)
      if n < d then point else pointFrom b fuel (point + 1)

/-- The digits of `n`, without zeros at the end. -/
def trimmedDigits (n : Nat) : List Nat :=
  ((Nat.toDigits 10 n).map fun c => c.toNat - '0'.toNat).reverse.dropWhile (· == 0) |>.reverse

/-- The decimal on the grid of `10 ^ grid` that reads back as `b`, if there is one:
of the two neighbours of the value on the grid, the nearer one that does. -/
def onGrid? (b : Binary) (grid : Int) : Option Nat :=
  let (n, d) := scale b.exponent grid (4 * b.mantissa)
  let (least, _) := scale b.exponent grid (4 * b.mantissa - if b.narrow then 1 else 2)
  let (most, _) := scale b.exponent grid (4 * b.mantissa + 2)
  let inside (candidate : Nat) : Bool :=
    let x := candidate * d
    if b.mantissa % 2 = 0 then decide (least ≤ x ∧ x ≤ most) else decide (least < x ∧ x < most)
  let below := n / d
  match inside below, inside (below + 1) with
  | true, true => some (if n * 2 < (2 * below + 1) * d then below else below + 1)
  | true, false => some below
  | false, true => some (below + 1)
  | false, false => none

/-- Try grids with one more digit at a time. -/
def searchDigits (b : Binary) (point : Int) : Nat → Nat → Nat × Int
  | 0, _ => (0, point)
  | fuel + 1, count =>
      match onGrid? b (point - count) with
      | some n => (n, point - count)
      | none => searchDigits b point fuel (count + 1)

/-- The decimal of fewest digits that reads back as `b`: 17 digits always do. -/
def shortest (b : Binary) : Digits :=
  let (n, grid) := searchDigits b (pointFrom b 640 (-324)) 17 1
  let length := (Nat.toDigits 10 n).length
  ⟨trimmedDigits n, grid + length⟩

end BoundedCache.Decimal
