import RestScenario.Proofs.Number.Order

/-!
# The total order refines the order of doubles

The rank of a double is read off its bits, and a comparison of doubles looks at what the bits stand
for. Both agree wherever a comparison tells two doubles apart: `rank_lt_rank_of_lt`. Below the sign,
the bits are an exponent field of 11 bits and a fraction field of 52 bits. `rank_eq` gives the rank
in terms of these fields, and `place_eq` the place in the order.
-/

namespace RestScenario.Number

open Float.Model Float.Model.UnpackedFloat

/-- The exponent field of a double. -/
def exponentField (x : Float) : ℕ := x.toBits.toNat / 2 ^ 52 % 2 ^ 11

/-- The fraction field of a double. -/
def fractionField (x : Float) : ℕ := x.toBits.toNat % 2 ^ 52

variable (x : Float)

theorem exponentField_lt : exponentField x < 2 ^ 11 := Nat.mod_lt _ (by norm_num)

theorem fractionField_lt : fractionField x < 2 ^ 52 := Nat.mod_lt _ (by norm_num)

theorem rank_eq :
    rank x = if x.toBits.toNat < 2 ^ 63 then (exponentField x * 2 ^ 52 + fractionField x : ℤ)
      else -(exponentField x * 2 ^ 52 + fractionField x) - 1 := by
  have hmagnitude : (x.toBits &&& 0x7FFFFFFFFFFFFFFF).toNat =
      exponentField x * 2 ^ 52 + fractionField x := by
    rw [UInt64.toNat_and, exponentField, fractionField,
      show (0x7FFFFFFFFFFFFFFF : UInt64).toNat = 2 ^ 63 - 1 from rfl,
      Nat.and_two_pow_sub_one_eq_mod]
    omega
  have hsign : x.toBits >>> 63 = 0 ↔ x.toBits.toNat < 2 ^ 63 := by
    rw [← UInt64.toNat_inj]
    simp [Nat.shiftRight_eq_div_pow]
  simp only [rank, hmagnitude, hsign]
  norm_cast

/-! ## What the fields stand for -/

theorem toNat_unpackExponent :
    (@unpackExponent .binary64 x.toModel.toBits.toBitVec).toNat = exponentField x := by
  change (@unpackExponent .binary64 x.toBits.toBitVec).toNat = _
  simp [unpackExponent, exponentField, Nat.shiftRight_eq_div_pow]

theorem toNat_unpackMantissa :
    (@unpackMantissa .binary64 x.toModel.toBits.toBitVec).toNat = fractionField x := by
  change (@unpackMantissa .binary64 x.toBits.toBitVec).toNat = _
  simp [unpackMantissa, fractionField]

theorem toNat_unpackSign_eq_zero_iff :
    (@unpackSign .binary64 x.toModel.toBits.toBitVec).toNat = 0 ↔ x.toBits.toNat < 2 ^ 63 := by
  change (@unpackSign .binary64 x.toBits.toBitVec).toNat = 0 ↔ _
  have := x.toBits.toNat_lt
  simp [unpackSign, Nat.shiftRight_eq_div_pow]
  omega

theorem toNat_implicitBit_append (m : BitVec 52) : (1#1 ++ m).toNat = 2 ^ 52 + m.toNat := by
  rw [BitVec.toNat_append, ← Nat.shiftLeft_add_eq_or_of_lt m.isLt]
  rfl

theorem isNaN_iff : x.isNaN = true ↔ exponentField x = 2047 ∧ fractionField x ≠ 0 := by
  unfold Float.isNaN Float.Model.isNaN Float.Model.unpack UnpackedFloat.unpack
  simp only [← BitVec.toNat_inj, toNat_unpackExponent, toNat_unpackMantissa, BitVec.toNat_ofNat,
    Nat.zero_mod]
  split_ifs <;> simp_all [UnpackedFloat.isNaN]

theorem place_eq :
    place x =
      let sign : ℤ := if x.toBits.toNat < 2 ^ 63 then 1 else -1
      if exponentField x = 2047 then
        if fractionField x = 0 then toLex (2 * sign, toLex (0, 0)) else toLex (0, toLex (0, 0))
      else if exponentField x = 0 then
        if fractionField x = 0 then toLex (0, toLex (0, 0))
        else toLex (sign, toLex (-1074 * sign, fractionField x * sign))
      else
        toLex (sign,
          toLex ((exponentField x - 1075) * sign, (2 ^ 52 + fractionField x) * sign)) := by
  have hbias : (Format.binary64.exponentBias : ℤ) = 1023 := rfl
  unfold place Float.Model.unpack UnpackedFloat.unpack
  simp only [← BitVec.toNat_inj, Sign.ofBitVec, BitVec.toNat_ofNat, Nat.zero_mod,
    toNat_unpackExponent, toNat_unpackMantissa, toNat_unpackSign_eq_zero_iff,
    toNat_implicitBit_append, hbias]
  by_cases hpositive : x.toBits.toNat < 2 ^ 63 <;> simp only [hpositive, if_true, if_false] <;>
    split_ifs <;> simp_all [unpackedPlace]

/-! ## Comparison -/

variable {x} {y : Float}

theorem place_nonneg (h : x.toBits.toNat < 2 ^ 63) : toLex (0, toLex (0, 0)) ≤ place x := by
  simp only [place_eq, if_pos h]
  split_ifs <;> simp [Prod.Lex.toLex_le_toLex]

theorem place_nonpos (h : ¬ x.toBits.toNat < 2 ^ 63) : place x ≤ toLex (0, toLex (0, 0)) := by
  simp only [place_eq, if_neg h]
  split_ifs <;> simp [Prod.Lex.toLex_le_toLex]

/-- A double that is less than another one has the lower rank. The rank also tells the two zeros
apart, and undefined values from all others, which no comparison does. -/
theorem rank_lt_rank_of_lt (h : x < y) : rank x < rank y := by
  obtain ⟨hx, hy, hplace⟩ := lt_iff.1 h
  have hx : ¬ (exponentField x = 2047 ∧ fractionField x ≠ 0) := by rw [← isNaN_iff, hx]; simp
  have hy : ¬ (exponentField y = 2047 ∧ fractionField y ≠ 0) := by rw [← isNaN_iff, hy]; simp
  have := exponentField_lt x
  have := exponentField_lt y
  have := fractionField_lt x
  have := fractionField_lt y
  rw [rank_eq, rank_eq]
  by_cases hxs : x.toBits.toNat < 2 ^ 63
  · by_cases hys : y.toBits.toNat < 2 ^ 63
    · rw [if_pos hxs, if_pos hys]
      simp only [place_eq, if_pos hxs, if_pos hys] at hplace
      split_ifs at hplace <;> simp only [Prod.Lex.toLex_lt_toLex] at hplace <;> omega
    · exact absurd ((place_nonneg hxs).trans_lt hplace) (place_nonpos hys).not_gt
  · by_cases hys : y.toBits.toNat < 2 ^ 63
    · rw [if_neg hxs, if_pos hys]
      omega
    · rw [if_neg hxs, if_neg hys]
      simp only [place_eq, if_neg hxs, if_neg hys] at hplace
      split_ifs at hplace <;> simp only [Prod.Lex.toLex_lt_toLex] at hplace <;> omega

end RestScenario.Number
