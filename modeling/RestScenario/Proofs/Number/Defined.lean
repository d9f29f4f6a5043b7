import Mathlib

/-!
# Values that are defined

A double is packed from a sign, an exponent and a significand. Packing never turns a value into an
undefined one, because the largest exponent is kept for infinities and undefined values alone
(`isNaN_pack`). So the reciprocal of a natural number is defined, and infinite at worst
(`isNaN_reciprocal`).
-/

namespace RestScenario.Number

open Float.Model Float.Model.UnpackedFloat

/-! ## Packing -/

theorem isNaN_unpack {spec : Format} {b : BitVec spec.numBits} :
    (UnpackedFloat.unpack spec b).isNaN = true ↔
      unpackExponent b = -1#_ ∧ unpackMantissa b ≠ 0#_ := by
  unfold UnpackedFloat.unpack
  by_cases h : unpackExponent b = -1#_
  · by_cases h' : unpackMantissa b = 0#_ <;> simp [h, h', UnpackedFloat.isNaN]
  · simp only [h, if_false, false_and, iff_false]
    split
    · split <;> simp [UnpackedFloat.isNaN]
    · simp [UnpackedFloat.isNaN]

theorem ofNat_ne_neg_one {w n : Nat} (h : n + 1 < 2 ^ w) : BitVec.ofNat w n ≠ -1#w := by
  intro heq
  have toNat := congrArg BitVec.toNat heq
  rw [BitVec.neg_one_eq_allOnes, BitVec.toNat_ofNat, BitVec.toNat_allOnes,
    Nat.mod_eq_of_lt (by omega)] at toNat
  omega

/-- Packing does not make a value undefined. -/
theorem isNaN_pack {u : UnpackedFloat} (h : u.isNaN = false) :
    (Float.Model.pack u).unpack.isNaN = false := by
  rw [Bool.eq_false_iff]
  show ¬ (UnpackedFloat.unpack Format.binary64 (UnpackedFloat.pack Format.binary64 u)).isNaN = true
  rw [isNaN_unpack]
  fun_cases UnpackedFloat.pack with
  | case1 => simp [UnpackedFloat.isNaN] at h
  | case2 s => simp [packedInfinity]
  | case3 s => simp [packedZero]
  | case4 s m e hm biased _ => simp [packedInfinity]
  | case5 s m e hm actual biased small _ =>
    rw [unpackExponent_packComponents]
    exact fun hexp => ofNat_ne_neg_one (by omega) hexp.1
  | case6 s m e hm actual biased _ _ => simp

/-! ## Arithmetic -/

theorem isNaN_roundWithAccuracy (spec : Format) (s : Sign) (m : Nat) (e : Int) (a : Accuracy) :
    (roundWithAccuracy spec s m e a).isNaN = false := by
  unfold roundWithAccuracy
  dsimp only
  split <;> rfl

section Finite

variable {spec : Format} {u : UnpackedFloat} {s : Sign} {m : Nat} {e : Int} {hm : 0 < m}

theorem isNaN_mul_finite (h : u.isNaN = false) :
    (UnpackedFloat.mul spec u (.finite s m e hm)).isNaN = false := by
  cases u with
  | notANumber => simp [UnpackedFloat.isNaN] at h
  | infinity | zero => rfl
  | finite => exact isNaN_roundWithAccuracy ..

theorem isNaN_div_finite (h : u.isNaN = false) :
    (UnpackedFloat.div spec (.finite s m e hm) u).isNaN = false := by
  cases u with
  | notANumber => simp [UnpackedFloat.isNaN] at h
  | infinity | zero => rfl
  | finite => exact isNaN_roundWithAccuracy ..

end Finite

theorem isNaN_ofInt (spec : Format) (n : Int) : (UnpackedFloat.ofInt spec n).isNaN = false := by
  unfold UnpackedFloat.ofInt UnpackedFloat.normalize
  split
  · exact isNaN_roundWithAccuracy ..
  · rfl
  · exact isNaN_roundWithAccuracy ..

theorem isNaN_ofScientific (spec : Format) (m : Nat) (e : Int) :
    (UnpackedFloat.ofScientific spec m e).isNaN = false := by
  unfold UnpackedFloat.ofScientific
  split
  · rfl
  · split
    · rfl
    · split
      · rfl
      · split
        · exact isNaN_mul_finite rfl
        · exact isNaN_div_finite rfl

/-! ## Natural numbers and their reciprocals -/

theorem unpack_one : ∃ hm, (1.0 : Float).toModel.unpack = .finite .positive (2 ^ 52) (-52) hm :=
  ⟨by decide, rfl⟩

theorem isNaN_mul_one {x : Float} (h : x.isNaN = false) : (x * 1.0).isNaN = false := by
  show (Float.Model.pack (UnpackedFloat.mul Format.binary64 x.toModel.unpack
    (1.0 : Float).toModel.unpack)).unpack.isNaN = false
  obtain ⟨hm, hone⟩ := unpack_one
  rw [hone]
  exact isNaN_pack (isNaN_mul_finite h)

theorem isNaN_ofNat (n : Nat) : (Float.ofNat n).isNaN = false := by
  show (Float.ofScientific n false 0).isNaN = false
  unfold Float.ofScientific
  split
  · -- a small number is scaled by the zeroth power of ten
    exact isNaN_mul_one (isNaN_pack (isNaN_ofInt _ _))
  · exact isNaN_pack (isNaN_ofScientific _ _ _)

/-- The reciprocal of a natural number is defined. -/
theorem isNaN_reciprocal (n : Nat) : (1.0 / Float.ofNat n).isNaN = false := by
  show (Float.Model.pack (UnpackedFloat.div Format.binary64 (1.0 : Float).toModel.unpack
    (Float.ofNat n).toModel.unpack)).unpack.isNaN = false
  obtain ⟨hm, hone⟩ := unpack_one
  rw [hone]
  exact isNaN_pack (isNaN_div_finite (isNaN_ofNat n))

end RestScenario.Number
