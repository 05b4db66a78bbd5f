/-
# Formula.Proofs.Number.Rounding — doubles are their own roundings

A double is given by its sign and the rank of its magnitude (`ofRank_rank`), and
a finite one has a rank below that of infinity (`rank_lt_infinity`). Rounding a
quotient depends on its value only (`nearest_mul_right`), and where the value is
that at a rank, it gives this rank (`nearest_units`).

`Decimal.rank` answers what rounding would, also where it takes a shortcut for a
value near zero (`rank_negSucc`). So of the decimals that `shortest` tries or
falls back on, each that it returns rounds to the rank it was asked for
(`rank_shortest`).
-/
import Mathlib
import Formula.Number.Text

namespace Formula.Number

set_option autoImplicit false

namespace Binary64

/-! ## Bits -/

/-- A double is given by its sign and the rank of its magnitude. -/
theorem ofRank_rank (x : Float) : ofRank (negative x) (rank x) = x := by
  have bound : x.toBits.toNat < 2 * signBit := x.toBits.toNat_lt
  have bits : (if negative x then signBit + rank x else rank x) = x.toBits.toNat := by
    unfold negative rank
    by_cases minus : signBit ≤ x.toBits.toNat
    · rw [if_pos (by simpa using minus)]
      unfold signBit at bound minus ⊢
      omega
    · rw [if_neg (by simpa using minus), Nat.mod_eq_of_lt (Nat.not_le.mp minus)]
  rw [ofRank, bits, UInt64.ofNat_toNat, Float.ofBits_toBits]

open Float.Model.UnpackedFloat (unpackExponent unpackExponent_def) in
/-- The exponent stands in eleven bits, above those that count within one spacing. -/
theorem toNat_unpackExponent (b : BitVec 64) :
    (@unpackExponent .binary64 b).toNat = b.toNat / firstNormal % 2048 := by
  rw [unpackExponent_def, BitVec.extractLsb'_toNat, Nat.shiftRight_eq_div_pow]
  rfl

open Float.Model.UnpackedFloat (unpack unpackExponent) in
/-- The exponent bits of a finite double are not all set. -/
theorem rank_lt_infinity {x : Float} (finite : x.isFinite = true) : rank x < infinity := by
  have notAll : @unpackExponent .binary64 x.toModel.toBits.toBitVec ≠ -1#11 := by
    intro all
    have unpacked : x.toModel.unpack.isFinite = true := finite
    unfold Float.Model.unpack unpack at unpacked
    dsimp only at unpacked
    split at unpacked
    · split at unpacked <;> cases unpacked
    · rename_i notAll
      exact notAll all
  have below : x.toBits.toNat / firstNormal % 2048 ≠ 2047 := by
    intro same
    exact notAll (BitVec.eq_of_toNat_eq ((toNat_unpackExponent _).trans same))
  unfold rank signBit infinity firstNormal at *
  omega

theorem not_special_of_isFinite {x : Float} (finite : x.isFinite = true) :
    x.isNaN = false ∧ x.isInf = false := by
  simp only [Float.isFinite, Float.isNaN, Float.isInf, Float.Model.isFinite, Float.Model.isNaN,
    Float.Model.isInf] at finite ⊢
  cases unpacked : x.toModel.unpack with
  | zero sign => exact ⟨rfl, rfl⟩
  | finite sign mantissa exponent positive => exact ⟨rfl, rfl⟩
  | infinity sign =>
      rw [unpacked] at finite
      cases finite
  | notANumber =>
      rw [unpacked] at finite
      cases finite

/-! ## Rounding values that are doubles -/

theorem one_shiftLeft_positive (n : Nat) : 0 < 1 <<< n := by
  rw [Nat.one_shiftLeft]
  exact Nat.two_pow_pos n

theorem spacing_positive (rank : Nat) : 0 < spacing rank := one_shiftLeft_positive _

theorem unitsPerOne_positive : 0 < unitsPerOne := one_shiftLeft_positive 1074

theorem rankBelow_eq (n : Nat) :
    rankBelow n = (n.log2 - 52) * firstNormal + n >>> (n.log2 - 52) := rfl

/-- The greatest rank whose value is at most that at a rank is this rank. -/
theorem rankBelow_units (rank : Nat) : rankBelow (units rank) = rank := by
  rw [rankBelow_eq]
  by_cases subnormal : rank < firstNormal
  · have short : rank.log2 - 52 = 0 := by
      rcases Nat.eq_zero_or_pos rank with rfl | positive
      · rfl
      · have := (Nat.log2_lt (Nat.ne_of_gt positive)).mpr (show rank < 2 ^ 52 from subnormal)
        omega
    rw [units_of_lt subnormal, short, Nat.zero_mul, Nat.zero_add, Nat.shiftRight_zero]
  · let lead := firstNormal + rank % firstNormal
    have value : units rank = lead * 2 ^ doublings rank := by
      rw [units, if_neg subnormal, Nat.shiftLeft_eq]
    have atLeast : 2 ^ 52 ≤ lead := Nat.le_add_right ..
    have below : lead < 2 ^ 53 := by
      simp only [lead, firstNormal]
      omega
    have length : (units rank).log2 = 52 + doublings rank := by
      have positive := Nat.two_pow_pos (doublings rank)
      have some_ : lead * 2 ^ doublings rank ≠ 0 := by
        refine Nat.ne_of_gt (Nat.mul_pos ?_ positive)
        omega
      rw [value, Nat.log2_eq_iff some_, Nat.add_right_comm, Nat.pow_add, Nat.pow_add]
      exact ⟨Nat.mul_le_mul_right _ atLeast, (Nat.mul_lt_mul_right positive).mpr below⟩
    rw [length, Nat.add_sub_cancel_left, value, Nat.shiftRight_eq_div_pow,
      Nat.mul_div_cancel _ (Nat.two_pow_pos _)]
    simp only [lead, doublings, firstNormal] at subnormal ⊢
    omega

theorem nearest_eq (num den : Nat) :
    nearest num den =
      let below := rankBelow (num * unitsPerOne / den)
      settle below (compare (2 * (num * unitsPerOne)) (den * (2 * units below + spacing below))) :=
  rfl

/-- A common factor does not change what a quotient rounds to. -/
theorem nearest_mul_right (num den : Nat) {k : Nat} (positive : 0 < k) :
    nearest (num * k) (den * k) = nearest num den := by
  have scaled : num * k * unitsPerOne = num * unitsPerOne * k := Nat.mul_right_comm ..
  have twice : 2 * (num * unitsPerOne * k) = 2 * (num * unitsPerOne) * k :=
    (Nat.mul_assoc ..).symm
  have midpoint : ∀ m : Nat, den * k * m = den * m * k := fun m => Nat.mul_right_comm ..
  have side : ∀ a b : Nat, compare (a * k) (b * k) = compare a b := by
    intro a b
    rcases Nat.lt_trichotomy a b with less | rfl | more
    · rw [Nat.compare_eq_lt.mpr less,
        Nat.compare_eq_lt.mpr ((Nat.mul_lt_mul_right positive).mpr less)]
    · simp
    · rw [Nat.compare_eq_gt.mpr more,
        Nat.compare_eq_gt.mpr ((Nat.mul_lt_mul_right positive).mpr more)]
  simp only [nearest, scaled, twice, midpoint, side, Nat.mul_div_mul_right _ _ positive]

theorem settle_lt {below : Nat} (upTo : below ≤ infinity) : settle below .lt = below :=
  Nat.min_eq_left upTo

/-- A value at a rank rounds to this rank. -/
theorem nearest_units {rank : Nat} (upTo : rank ≤ infinity) :
    nearest (units rank) unitsPerOne = rank := by
  have one := unitsPerOne_positive
  rw [nearest_eq]
  generalize unitsPerOne = one_ at one ⊢
  have below : rankBelow (units rank * one_ / one_) = rank := by
    rw [Nat.mul_div_cancel _ one, rankBelow_units]
  have side : compare (2 * (units rank * one_)) (one_ * (2 * units rank + spacing rank)) = .lt := by
    rw [Nat.compare_eq_lt, Nat.mul_comm (units rank), Nat.mul_left_comm]
    refine (Nat.mul_lt_mul_left one).mpr ?_
    have := spacing_positive rank
    omega
  simp only [below, side, settle_lt upTo]

/-- A value below half a unit rounds to zero. -/
theorem nearest_eq_zero {num den : Nat} (small : 2 * (num * unitsPerOne) < den) :
    nearest num den = 0 := by
  rw [nearest_eq]
  generalize num * unitsPerOne = scaled at small ⊢
  have none_ : scaled / den = 0 := Nat.div_eq_of_lt (by omega)
  have below : rankBelow 0 = 0 := rankBelow_units 0
  have side : compare (2 * scaled) (den * (2 * units 0 + spacing 0)) = .lt := by
    have unit : 2 * units 0 + spacing 0 = 1 := rfl
    rwa [unit, Nat.mul_one, Nat.compare_eq_lt]
  simp only [none_, below, side, settle_lt (Nat.zero_le _)]

end Binary64

open Binary64

namespace Decimal

/-! ## Decimals -/

theorem powerOfTen_eq (n : Nat) : powerOfTen n = 1 <<< n * Nat.pow 5 n := by
  rw [powerOfTen, Nat.one_shiftLeft]
  exact Nat.mul_pow 2 5 n

theorem powerOfTen_positive (n : Nat) : 0 < powerOfTen n := Nat.pow_pos (by decide)

/-- The test for the shortcut bounds a coefficient against a power of ten. -/
theorem lt_powerOfTen {c n k : Nat} (short : c.log2 + (n + 2) ≤ 3 * k) :
    2 * (c * 1 <<< n) < powerOfTen k := by
  have digits : c < 2 ^ (c.log2 + 1) := Nat.lt_log2_self
  calc 2 * (c * 1 <<< n) = c * 2 ^ (n + 1) := by
        rw [Nat.one_shiftLeft, Nat.pow_succ, Nat.mul_left_comm, Nat.mul_comm 2]
    _ < 2 ^ (c.log2 + 1) * 2 ^ (n + 1) := (Nat.mul_lt_mul_right (Nat.two_pow_pos _)).mpr digits
    _ = 2 ^ (c.log2 + (n + 2)) := by rw [← Nat.pow_add]; congr 1; omega
    _ ≤ 2 ^ (3 * k) := Nat.pow_le_pow_right (by decide) short
    _ = 8 ^ k := by rw [Nat.pow_mul]
    _ ≤ powerOfTen k := Nat.pow_le_pow_left (by decide) k

/-- The shortcut for values near zero answers what rounding would. -/
theorem rank_negSucc (c k : Nat) : rank ⟨c, .negSucc k⟩ = nearest c (powerOfTen (k + 1)) := by
  unfold rank
  dsimp only
  split
  · rename_i zero
    rw [zero, nearest_eq_zero]
    rw [Nat.zero_mul]
    exact powerOfTen_positive _
  · split
    · rename_i short
      exact (nearest_eq_zero (lt_powerOfTen short)).symm
    · rfl

theorem rank_ofNat {e : Nat} (fits : e < 309) (c : Nat) :
    rank ⟨c, .ofNat e⟩ = nearest (c * powerOfTen e) 1 := by
  unfold rank
  dsimp only
  split
  · rename_i zero
    rw [zero, Nat.zero_mul, nearest_eq_zero]
    rw [Nat.zero_mul]
    decide
  · rw [if_neg (Nat.not_le.mpr fits)]

end Decimal

/-! ## The shortest decimal -/

/-- All digits of a whole number of binary fractions. -/
theorem nearest_mul_five (num n : Nat) :
    nearest (num * Nat.pow 5 n) (powerOfTen n) = nearest num (1 <<< n) := by
  rw [Decimal.powerOfTen_eq]
  exact nearest_mul_right _ _ (Nat.pow_pos (by decide))

/-- A neighbour is only taken if it rounds to the rank. -/
theorem rank_closerNeighbour {rank num den : Nat} {exponent : Int} {d : Decimal}
    (found : closerNeighbour rank exponent num den = some d) : d.rank = rank := by
  unfold closerNeighbour at found
  dsimp only at found
  split at found
  · rename_i low
    split at found
    · rename_i high
      cases found
      exact high.1
    · cases found
      exact low
  · split at found
    · rename_i high
      cases found
      exact high
    · cases found

theorem rank_exactDecimal {rank : Nat} (upTo : rank ≤ infinity) :
    (exactDecimal rank).rank = rank := by
  have expansion : ∀ c, Decimal.rank ⟨c, -1074⟩ = nearest c (powerOfTen 1074) :=
    fun c => Decimal.rank_negSucc c 1073
  -- stated for every exponent, so that no power of the one here is computed
  have factor : ∀ n, nearest (units rank * Nat.pow 5 n) (powerOfTen n) =
      nearest (units rank) (1 <<< n) := nearest_mul_five (units rank)
  rw [exactDecimal, expansion, factor 1074]
  exact nearest_units upTo

/-- The shortest decimal for a rank rounds to it. -/
theorem rank_shortest {rank : Nat} (upTo : rank ≤ infinity) : (shortest rank).rank = rank := by
  unfold shortest
  cases found : (List.range 17).findSome? fun k => shortestOfLength rank (k + 1) with
  | none => exact rank_exactDecimal upTo
  | some d =>
      obtain ⟨k, -, here⟩ := List.exists_of_findSome?_eq_some found
      exact rank_closerNeighbour here

end Formula.Number
