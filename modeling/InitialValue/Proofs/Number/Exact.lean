/-
  Numbers over the exact rationals.

  Over the rationals every number has a value, whole numbers included, and is worth it, so the
  operations on numbers are those on values.  The opposite of a number is of the same kind;
  differences turn round with their terms, and magnitudes and equality do not notice.
-/
import InitialValue.Proofs.Number.Faithful

namespace InitialValue.Number

/-- What a number is worth. -/
def value : Number ℚ → ℚ
  | .whole n => n
  | .real x => x

theorem toReal_eq (a : Number ℚ) : a.toReal = .ok a.value := by
  cases a <;> rfl

theorem worth_value (a : Number ℚ) : a.Worth a.value := by
  cases a <;> rfl

/-! ## Comparing -/

theorem same_value_iff {a b : Number ℚ} : a.same b = true ↔ a.value = b.value :=
  (worth_value a).same_iff (worth_value b)

/-! ## Opposites -/

/-- The number of the opposite sign. -/
def opposite : Number ℚ → Number ℚ
  | .whole n => .whole (-n)
  | .real x => .real (-x)

theorem value_opposite (a : Number ℚ) : a.opposite.value = -a.value := by
  cases a <;> simp [opposite, value]

theorem magnitude_opposite (a : Number ℚ) : a.opposite.magnitude = a.magnitude := by
  cases a with
  | whole n => simp [opposite, magnitude]
  | real x => simp [opposite, magnitude, Scalar.magnitude_rat]

theorem sub_opposite (a b : Number ℚ) :
    a.opposite.sub b.opposite = opposite <$> a.sub b := by
  have hreal : ∀ x y : ℚ, (Except.ok (.real (-x - -y)) : Except Foreign (Number ℚ)) =
      .ok (.real (-(x - y))) := by
    intro x y
    rw [neg_sub_neg, neg_sub]
  cases a <;> cases b
  case whole.whole m n =>
    show Except.ok (Number.whole (-m - -n)) = Except.ok (Number.whole (-(m - n)))
    rw [neg_sub_neg, neg_sub]
  case whole.real m y =>
    show Except.ok (Number.real (((-m : ℤ) : ℚ) - -y)) = Except.ok (Number.real (-((m : ℚ) - y)))
    rw [Int.cast_neg, hreal]
  case real.whole x n =>
    show Except.ok (Number.real (-x - ((-n : ℤ) : ℚ))) = Except.ok (Number.real (-(x - (n : ℚ))))
    rw [Int.cast_neg, hreal]
  case real.real x y => exact hreal x y

theorem same_opposite (a b : Number ℚ) : a.opposite.same b.opposite = a.same b := by
  rw [Bool.eq_iff_iff, same_value_iff, same_value_iff, value_opposite, value_opposite, neg_inj]

end InitialValue.Number
