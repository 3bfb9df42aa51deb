import BoundedCache.Decimal.Shortest
import BoundedCache.Metrics
import Mathlib

/-!
# What a gauge holds

A number that is set on a gauge becomes a double.  Its leading bit goes to the leading place of
the mantissa (`log2_shifted`), and nothing is cut off as long as all bits have room there.  So up
to 53 bits the double is the number itself (`isNat_gaugeBits`).
-/

namespace BoundedCache

/-- The double is this number. -/
def Decimal.Parts.IsNat (n : Nat) : Decimal.Parts → Prop
  | .zero _ => n = 0
  | .finite negative value =>
      negative = false ∧ value.mantissa * 2 ^ value.exponent = n * 2 ^ 1076
  | _ => False

namespace Metrics

open Float.Model Float.Model.UnpackedFloat

/-! ## Rounding a full mantissa -/

theorem targetExponent_of_normal {m : Nat} {e : Int} (h : -1074 ≤ (m.log2 : Int) + e - 52) :
    Format.binary64.targetExponent (totalExponent m e) = (m.log2 : Int) + e - 52 := by
  simp only [Format.targetExponent, totalExponent, Format.mantissaBits, Format.minExponent]
  norm_num
  omega

theorem shiftToTargetExponent_of_log2 {m : Nat} {e : Int} (hlog : m.log2 = 52) (he : -1074 ≤ e) :
    shiftToTargetExponent Format.binary64 m e .exact = (⟨m, false, false⟩, e) := by
  have htarget : Format.binary64.targetExponent (totalExponent m e) = e := by
    rw [targetExponent_of_normal (by omega)]
    omega
  rw [shiftToTargetExponent, htarget]
  simp [shiftToExponent, HShiftRight.hShiftRight, Nat.repeat,
    ExtendedMantissa.ofMantissaAndAccuracy]

theorem roundWithAccuracy_of_log2 {m : Nat} {e : Int} (hlog : m.log2 = 52) (he : -1074 ≤ e)
    (hpos : 0 < m) (sign : Sign) :
    roundWithAccuracy Format.binary64 sign m e .exact = .finite sign m e hpos := by
  have hshift := shiftToTargetExponent_of_log2 hlog he
  have hrounded : (⟨m, false, false⟩ : ExtendedMantissa).roundedMantissa = m := rfl
  rw [roundWithAccuracy, hshift]
  dsimp only
  rw [hrounded, hshift]
  exact dif_neg hpos.ne'

/-! ## Numbers -/

/-- The mantissa is shifted up until it is full. -/
theorem log2_shifted {n : Nat} (hpos : 0 < n) (hlt : n < 2 ^ 53) :
    (n <<< (52 - n.log2)).log2 = 52 := by
  have hlog : n.log2 < 53 := (Nat.log2_lt hpos.ne').mpr hlt
  have hshifted : n * 2 ^ (52 - n.log2) ≠ 0 := Nat.mul_ne_zero hpos.ne' (by positivity)
  rw [Nat.shiftLeft_eq, Nat.log2_eq_iff hshifted]
  have hlow := Nat.mul_le_mul_right (2 ^ (52 - n.log2)) (Nat.log2_self_le hpos.ne')
  have hhigh := Nat.mul_lt_mul_of_pos_right (Nat.lt_log2_self (n := n))
    (Nat.two_pow_pos (52 - n.log2))
  rw [← Nat.pow_add] at hlow hhigh
  rw [show n.log2 + (52 - n.log2) = 52 by omega] at hlow
  rw [show n.log2 + 1 + (52 - n.log2) = 52 + 1 by omega] at hhigh
  exact ⟨hlow, hhigh⟩

theorem ofNat_eq {n : Nat} (hpos : 0 < n) (hlt : n < 2 ^ 53) :
    ∃ hshifted, UnpackedFloat.ofNat Format.binary64 n =
      .finite .positive (n <<< (52 - n.log2)) ((n.log2 : Int) - 52) hshifted := by
  have hlog : n.log2 < 53 := (Nat.log2_lt hpos.ne').mpr hlt
  have htarget : Format.binary64.targetExponent (totalExponent n 0) = (n.log2 : Int) - 52 := by
    rw [targetExponent_of_normal (by omega)]
    omega
  have hcompare : compare (n : Int) 0 = .gt := Int.compare_eq_gt.mpr (by omega)
  have hshift : (0 - ((n.log2 : Int) - 52)).toNat = 52 - n.log2 := by omega
  have hexponent : (0 : Int) - ((52 - n.log2 : Nat) : Int) = (n.log2 : Int) - 52 := by omega
  have hshifted : 0 < n <<< (52 - n.log2) := by
    rw [Nat.shiftLeft_eq]
    positivity
  refine ⟨hshifted, ?_⟩
  unfold UnpackedFloat.ofNat UnpackedFloat.ofInt UnpackedFloat.normalize
  rw [hcompare]
  dsimp only
  unfold UnpackedFloat.round decreaseExponent
  rw [Int.toNat_natCast, htarget]
  dsimp only
  rw [hshift, hexponent]
  exact roundWithAccuracy_of_log2 (log2_shifted hpos hlt) (by omega) hshifted .positive

theorem toNat_packComponents (exponent : BitVec 11) (mantissa : BitVec 52) :
    (packComponents Format.binary64 .positive exponent mantissa).toNat =
      exponent.toNat * 2 ^ 52 + mantissa.toNat := by
  have hsign : (Sign.positive.toBitVec ++ exponent : BitVec 12).toNat = exponent.toNat := by
    rw [BitVec.toNat_append]
    exact Nat.zero_or _
  show (Sign.positive.toBitVec ++ exponent ++ mantissa : BitVec 64).toNat = _
  rw [BitVec.toNat_append, hsign, ← Nat.shiftLeft_add_eq_or_of_lt mantissa.isLt,
    Nat.shiftLeft_eq]

/-- The fields of the bits of a number. -/
theorem toNat_gaugeBits {n : Nat} (hpos : 0 < n) (hlt : n < 2 ^ 53) :
    (gaugeBits n).toNat = (n.log2 + 1023) * 2 ^ 52 + (n <<< (52 - n.log2)) % 2 ^ 52 := by
  have hlog : n.log2 < 53 := (Nat.log2_lt hpos.ne').mpr hlt
  obtain ⟨hshifted, heq⟩ := ofNat_eq hpos hlt
  have hword : n.toUInt64.toNat = n := by
    rw [Nat.toUInt64_eq, UInt64.toNat_ofNat', Nat.mod_eq_of_lt (by omega)]
  have hbits : (gaugeBits n).toNat = (UnpackedFloat.pack Format.binary64
      (UnpackedFloat.ofNat Format.binary64 n.toUInt64.toNat)).toNat := rfl
  have hbiased : ((n.log2 : Int) - 52 + ((2 ^ (11 - 1) - 1 : Nat) : Int) + (52 : Nat)).toNat =
      n.log2 + 1023 := by omega
  rw [hbits, hword, heq]
  simp only [UnpackedFloat.pack, Format.exponentBias, Format.mantissaBits, log2_shifted hpos hlt]
  rw [hbiased, if_neg (by omega), if_pos trivial, toNat_packComponents, BitVec.toNat_ofNat,
    BitVec.toNat_ofNat, Nat.mod_eq_of_lt (by omega)]

theorem shiftLeft_mul_two_pow (n : Nat) {first second places : Nat}
    (h : first + second = places) : n <<< first * 2 ^ second = n * 2 ^ places := by
  rw [Nat.shiftLeft_eq, Nat.mul_assoc, ← Nat.pow_add, h]

/-- A number of up to 53 bits is shown exactly. -/
theorem isNat_gaugeBits {n : Nat} (hlt : n < 2 ^ 53) :
    (Decimal.Parts.ofBits (gaugeBits n)).IsNat n := by
  rcases Nat.eq_zero_or_pos n with rfl | hpos
  · rfl
  · have hlog : n.log2 < 53 := (Nat.log2_lt hpos.ne').mpr hlt
    have hbits := toNat_gaugeBits hpos hlt
    have hfull := log2_shifted hpos hlt
    have hvalue : n <<< (52 - n.log2) * 2 ^ (n.log2 + 1024) = n * 2 ^ 1076 :=
      shiftLeft_mul_two_pow n (by omega)
    generalize n <<< (52 - n.log2) = mantissa at hbits hfull hvalue
    have hne : mantissa ≠ 0 := by
      rintro rfl
      exact absurd hfull (by decide)
    obtain ⟨hlow, hhigh⟩ := (Nat.log2_eq_iff hne).mp hfull
    have hnegative : (gaugeBits n).toNat >>> 63 = 0 := by
      rw [hbits, Nat.shiftRight_eq_div_pow]
      omega
    have hexponent : (gaugeBits n).toNat >>> 52 % 0x800 = n.log2 + 1023 := by
      rw [hbits, Nat.shiftRight_eq_div_pow]
      omega
    have hfraction : 0x10000000000000 + (gaugeBits n).toNat % 0x10000000000000 = mantissa := by
      omega
    unfold Decimal.Parts.ofBits
    simp only [hnegative, hexponent]
    rw [if_neg (by omega), if_neg (by omega)]
    exact ⟨rfl, by rw [hfraction, hvalue]⟩

end Metrics

end BoundedCache
