import Mathlib
import RestScenario.Number.Compare

/-!
# The order of doubles

Comparisons of doubles are comparisons of places in a linear order, as long as both sides are
defined: `lt_iff` and `le_iff`. The place of a double is its sign class, then its exponent, then its
significand, where negative values run the other way; both zeros have one place.

So larger and smaller of two doubles, and the nearest value of the unit interval, are bounds as soon
as one operand is defined (`le_larger_left`, `le_smaller`, `isUnit_clampUnit`).
-/

namespace RestScenario.Number

open Float.Model Float.Model.UnpackedFloat

/-! ## Places -/

/-- Where an unpacked double stands: sign class, exponent, significand. -/
def unpackedPlace : UnpackedFloat → ℤ ×ₗ ℤ ×ₗ ℤ
  | .infinity .negative => toLex (-2, toLex (0, 0))
  | .infinity .positive => toLex (2, toLex (0, 0))
  | .notANumber => toLex (0, toLex (0, 0))
  | .zero _ => toLex (0, toLex (0, 0))
  | .finite .negative m e _ => toLex (-1, toLex (-e, -m))
  | .finite .positive m e _ => toLex (1, toLex (e, m))

/-- Where a double stands in the order. An undefined value has the place of zero, and no comparison
looks at it. -/
def place (x : Float) : ℤ ×ₗ ℤ ×ₗ ℤ := unpackedPlace x.toModel.unpack

theorem compare_sign (s t : Sign) :
    compare s t = compare (match s with | .negative => 0 | .positive => 1 : Nat)
      (match t with | .negative => 0 | .positive => 1 : Nat) := by
  cases s <;> cases t <;> rfl

theorem unpacked_lt_iff {u v : UnpackedFloat} :
    u.lt v = true ↔ u.isNaN = false ∧ v.isNaN = false ∧ unpackedPlace u < unpackedPlace v := by
  rcases u with ⟨_ | _⟩ | _ | _ | ⟨_ | _, m, e, hm⟩ <;>
    rcases v with ⟨_ | _⟩ | _ | _ | ⟨_ | _, m', e', hm'⟩ <;>
    simp [UnpackedFloat.lt, UnpackedFloat.compare, UnpackedFloat.isNaN, unpackedPlace,
      Prod.Lex.toLex_lt_toLex, Ordering.then_eq_lt, Ordering.then_eq_gt, compare_sign,
      Nat.compare_eq_lt, Nat.compare_eq_gt, Int.compare_eq_lt, Int.compare_eq_gt]

theorem unpacked_beq_iff {u v : UnpackedFloat} :
    u.beq v = true ↔ u.isNaN = false ∧ v.isNaN = false ∧ unpackedPlace u = unpackedPlace v := by
  rcases u with ⟨_ | _⟩ | _ | _ | ⟨_ | _, m, e, hm⟩ <;>
    rcases v with ⟨_ | _⟩ | _ | _ | ⟨_ | _, m', e', hm'⟩ <;>
    simp [UnpackedFloat.beq, UnpackedFloat.compare, UnpackedFloat.isNaN, unpackedPlace,
      compare_sign, Ordering.then_eq_eq]

theorem unpacked_le_eq (u v : UnpackedFloat) : u.le v = (u.lt v || u.beq v) := by
  unfold UnpackedFloat.le UnpackedFloat.lt UnpackedFloat.beq
  rcases u.compare v with _ | _ | _ | _ <;> rfl

theorem unpacked_le_iff {u v : UnpackedFloat} :
    u.le v = true ↔ u.isNaN = false ∧ v.isNaN = false ∧ unpackedPlace u ≤ unpackedPlace v := by
  rw [unpacked_le_eq, Bool.or_eq_true, unpacked_lt_iff, unpacked_beq_iff, le_iff_lt_or_eq]
  tauto

/-! ## Comparisons -/

variable {x y z : Float}

theorem lt_iff : x < y ↔ x.isNaN = false ∧ y.isNaN = false ∧ place x < place y := by
  show decide (x.toModel.lt y.toModel = true) = true ↔ _
  rw [decide_eq_true_iff]
  exact unpacked_lt_iff

theorem le_iff : x ≤ y ↔ x.isNaN = false ∧ y.isNaN = false ∧ place x ≤ place y := by
  show decide (x.toModel.le y.toModel = true) = true ↔ _
  rw [decide_eq_true_iff]
  exact unpacked_le_iff

theorem beq_iff : (x == y) = true ↔ x.isNaN = false ∧ y.isNaN = false ∧ place x = place y :=
  unpacked_beq_iff

theorem le_refl (h : x.isNaN = false) : x ≤ x := le_iff.2 ⟨h, h, le_rfl⟩

theorem le_trans (h : x ≤ y) (h' : y ≤ z) : x ≤ z := by
  obtain ⟨hx, -, hxy⟩ := le_iff.1 h
  obtain ⟨-, hz, hyz⟩ := le_iff.1 h'
  exact le_iff.2 ⟨hx, hz, hxy.trans hyz⟩

theorem le_of_not_lt (hx : x.isNaN = false) (hy : y.isNaN = false) (h : ¬ y < x) : x ≤ y := by
  refine le_iff.2 ⟨hx, hy, not_lt.1 fun hplace => h ?_⟩
  exact lt_iff.2 ⟨hy, hx, hplace⟩

theorem beq_of_le (h : x ≤ y) (h' : y ≤ x) : (x == y) = true := by
  obtain ⟨hx, hy, hxy⟩ := le_iff.1 h
  exact beq_iff.2 ⟨hx, hy, le_antisymm hxy (le_iff.1 h').2.2⟩

theorem le_of_lt (h : x < y) : x ≤ y := by
  obtain ⟨hx, hy, hplace⟩ := lt_iff.1 h
  exact le_iff.2 ⟨hx, hy, hplace.le⟩

/-! ## Bounds -/

theorem le_larger_left (h : x.isNaN = false) : x ≤ larger x y := by
  unfold larger
  rw [h, Bool.false_or]
  split
  · rename_i hxy
    exact le_of_lt (decide_eq_true_iff.1 hxy)
  · exact le_refl h

theorem le_larger_right (h : y.isNaN = false) : y ≤ larger x y := by
  unfold larger
  split
  · exact le_refl h
  · rename_i hxy
    obtain ⟨hx, hlt⟩ : x.isNaN = false ∧ ¬ x < y := by simpa using hxy
    exact le_of_not_lt h hx hlt

theorem isNaN_larger (h : x.isNaN = false) : (larger x y).isNaN = false :=
  (le_iff.1 (le_larger_left h)).2.1

/-- A bound of a larger value and of another one is a bound of the smaller of both. -/
theorem le_smaller (hx : z ≤ x) (hy : z ≤ y) : z ≤ smaller x y := by
  unfold smaller
  split <;> assumption

theorem smaller_le_right (hx : x.isNaN = false) (hy : y.isNaN = false) : smaller x y ≤ y := by
  unfold smaller
  rw [hx, Bool.false_or]
  split
  · exact le_refl hy
  · rename_i hyx
    exact le_of_not_lt hx hy fun hlt => hyx (decide_eq_true_iff.2 hlt)

theorem isUnit_iff : isUnit x = true ↔ 0.0 ≤ x ∧ x ≤ 1.0 := by
  simp [isUnit]

theorem isNaN_of_isUnit (h : isUnit x = true) : x.isNaN = false := (le_iff.1 (isUnit_iff.1 h).1).2.1

/-- The nearest value of the unit interval lies in it. -/
theorem isUnit_clampUnit (h : x.isNaN = false) : isUnit (clampUnit x) = true := by
  unfold clampUnit
  split
  · decide
  · rename_i hlow
    split
    · decide
    · rename_i hhigh
      exact isUnit_iff.2 ⟨le_of_not_lt rfl h hlow, le_of_not_lt h rfl hhigh⟩

theorem isUnit_larger (hx : isUnit x = true) (hy : isUnit y = true) :
    isUnit (larger x y) = true := by
  unfold larger
  split <;> assumption

end RestScenario.Number
