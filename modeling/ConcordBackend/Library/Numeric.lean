import Mathlib.Data.Nat.Digits.Lemmas
import Mathlib.Data.Rat.Floor

/-!
# Columns of a decimal type

A column `NUMERIC(precision, scale)` stores a value rounded to `scale` digits after the point,
halves away from zero. It rejects a value that then has more than `precision - scale` digits
before the point.
-/

/-- The nearest integer, of two the one further from zero. -/
def roundHalfAway (q : ℚ) : ℤ := if 0 ≤ q then ⌊q + 1 / 2⌋ else -⌊-q + 1 / 2⌋

/-- What the column stores for a value, `none` where it rejects it. -/
def numericColumn (precision scale : ℕ) (q : ℚ) : Option ℚ :=
  let rounded : ℚ := roundHalfAway (q * 10 ^ scale) / 10 ^ scale
  if |rounded| < 10 ^ (precision - scale) then some rounded else none

/-- An integer is not rounded. -/
theorem roundHalfAway_intCast (n : ℤ) : roundHalfAway n = n := by
  have hfloor : ∀ m : ℤ, ⌊(m : ℚ) + 1 / 2⌋ = m := by
    intro m
    rw [Int.floor_intCast_add]
    norm_num
  unfold roundHalfAway
  split_ifs
  · exact hfloor n
  · rw [← Int.cast_neg, hfloor, neg_neg]

/-- **A column without a fractional part** stores the integers of its precision as they are. -/
theorem numericColumn_intCast {precision : ℕ} {n : ℤ}
    (h : (Nat.digits 10 n.natAbs).length ≤ precision) :
    numericColumn precision 0 n = some (n : ℚ) := by
  have hlt : n.natAbs < 10 ^ precision := (Nat.digits_length_le_iff (by omega) _).mp h
  have habs : |(n : ℚ)| < 10 ^ precision := by
    rw [← Int.cast_abs, Int.abs_eq_natAbs]
    exact_mod_cast hlt
  simp [numericColumn, roundHalfAway_intCast, habs]
