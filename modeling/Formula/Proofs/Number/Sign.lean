/-
# Formula.Proofs.Number.Sign — the sign of a double and its magnitude

A double made of a sign and a magnitude up to infinity has just these: its bits are
the sign before the rank of the magnitude (`toBits_ofRank`), so the sign can be asked
for (`negative_ofRank`), also of zero and of infinity. None of these doubles is a NaN
(`isNaN_ofRank`), and the negative of one has the other sign and the same magnitude
(`neg_ofRank`).
-/
import Formula.Proofs.Number.Rounding

namespace Formula.Number.Binary64

set_option autoImplicit false

open Float.Model.UnpackedFloat

variable {minus : Bool} {rank : Nat}

/-! ## The parts of the bits -/

/-- The bits of a sign and a magnitude. -/
def bits (minus : Bool) (rank : Nat) : BitVec 64 :=
  BitVec.ofNat 64 (if minus then signBit + rank else rank)

theorem toNat_bits (upTo : rank ≤ infinity) :
    (bits minus rank).toNat = if minus then signBit + rank else rank := by
  rw [bits, BitVec.toNat_ofNat, Nat.mod_eq_of_lt]
  unfold infinity firstNormal at upTo
  unfold signBit
  split <;> omega

theorem mantissa_bits (upTo : rank ≤ infinity) :
    (@unpackMantissa .binary64 (bits minus rank)).toNat = rank % firstNormal := by
  have lowest : (@unpackMantissa .binary64 (bits minus rank)).toNat =
      (bits minus rank).toNat % firstNormal := by
    rw [unpackMantissa_def, BitVec.extractLsb'_toNat, Nat.shiftRight_zero]
    rfl
  rw [lowest, toNat_bits upTo]
  unfold signBit firstNormal
  split <;> omega

theorem exponent_bits (upTo : rank ≤ infinity) :
    (@unpackExponent .binary64 (bits minus rank)).toNat = rank / firstNormal := by
  rw [toNat_unpackExponent, toNat_bits upTo]
  unfold infinity at upTo
  unfold signBit
  unfold firstNormal at *
  split <;> omega

theorem sign_bits (upTo : rank ≤ infinity) :
    @unpackSign .binary64 (bits minus rank) = BitVec.ofBool minus := by
  have highest : (@unpackSign .binary64 (bits minus rank)).toNat =
      (bits minus rank).toNat / signBit % 2 := by
    rw [unpackSign_def, BitVec.extractLsb'_toNat, Nat.shiftRight_eq_div_pow]
    rfl
  refine BitVec.eq_of_toNat_eq ?_
  rw [highest, toNat_bits upTo, BitVec.toNat_ofBool]
  unfold infinity firstNormal at upTo
  unfold signBit
  cases minus with
  | true =>
      simp only [if_true, Bool.toNat_true]
      omega
  | false =>
      simp only [Bool.false_eq_true, if_false, Bool.toNat_false]
      omega

/-- Up to infinity there is no NaN: only infinity has the greatest exponent, and its
mantissa is zero. -/
theorem isNaNBits_bits (upTo : rank ≤ infinity) :
    @isNaNBits .binary64 (bits minus rank) = false := by
  refine decide_eq_false ?_
  rintro ⟨greatest, some_⟩
  have exponent : rank / firstNormal = 2047 :=
    (exponent_bits upTo).symm.trans (congrArg BitVec.toNat greatest)
  refine some_ (BitVec.eq_of_toNat_eq ((mantissa_bits upTo).trans ?_))
  show rank % firstNormal = 0
  unfold infinity at upTo
  unfold firstNormal at *
  omega

/-! ## The double -/

theorem toBits_ofRank (upTo : rank ≤ infinity) :
    (ofRank minus rank).toBits.toBitVec = bits minus rank := by
  have repacked : pack .binary64 (unpack .binary64 (bits minus rank)) = bits minus rank := by
    rw [pack_unpack, isNaNBits_bits upTo, if_neg Bool.false_ne_true]
  exact repacked

theorem negative_ofRank (upTo : rank ≤ infinity) : negative (ofRank minus rank) = minus := by
  have value : (ofRank minus rank).toBits.toNat = (bits minus rank).toNat :=
    congrArg BitVec.toNat (toBits_ofRank upTo)
  rw [negative, value, toNat_bits upTo]
  unfold infinity firstNormal at upTo
  unfold signBit
  cases minus with
  | true => exact decide_eq_true (Nat.le_add_right ..)
  | false =>
      refine decide_eq_false ?_
      rw [if_neg Bool.false_ne_true]
      omega

theorem isNaN_ofRank (upTo : rank ≤ infinity) : (ofRank minus rank).isNaN = false := by
  rw [Float.isNaN_eq_decide_eq_nan]
  refine decide_eq_false fun isNaN => ?_
  have nan : Float.nan.toBits.toBitVec = packedNaN .binary64 := rfl
  have plain : @isNaNBits .binary64 (bits minus rank) = false := isNaNBits_bits upTo
  rw [← toBits_ofRank upTo, isNaN, nan, isNaNBits_packedNaN] at plain
  cases plain

/-! ## Negation -/

/-- Bits that differ in the sign only stand for negatives of each other. -/
theorem neg_unpack {b c : BitVec 64}
    (mantissa : @unpackMantissa .binary64 b = @unpackMantissa .binary64 c)
    (exponent : @unpackExponent .binary64 b = @unpackExponent .binary64 c)
    (sign : -Sign.ofBitVec (@unpackSign .binary64 b) = Sign.ofBitVec (@unpackSign .binary64 c)) :
    (unpack .binary64 b).neg = unpack .binary64 c := by
  unfold unpack
  simp only [mantissa, exponent, ← sign]
  split
  · split <;> rfl
  · split
    · split <;> rfl
    · rfl

/-- The negative has the other sign and the same magnitude. -/
theorem neg_ofRank (upTo : rank ≤ infinity) : -ofRank minus rank = ofRank (!minus) rank := by
  have flipped : (unpack .binary64 (bits minus rank)).neg =
      unpack .binary64 (bits (!minus) rank) := by
    refine neg_unpack (BitVec.eq_of_toNat_eq ?_) (BitVec.eq_of_toNat_eq ?_) ?_
    · rw [mantissa_bits upTo, mantissa_bits upTo]
    · rw [exponent_bits upTo, exponent_bits upTo]
    · rw [sign_bits upTo, sign_bits upTo]
      cases minus <;> rfl
  have negated : (-ofRank minus rank).toBits.toBitVec =
      pack .binary64 (unpack .binary64 (ofRank minus rank).toBits.toBitVec).neg := rfl
  rw [toBits_ofRank upTo, flipped] at negated
  exact Float.toBits_inj.mp (UInt64.toBitVec_inj.mp negated)

end Formula.Number.Binary64
