/-
  Exact rationals as scalars.

  Over the rationals the operations of `Scalar` are those of the field and its order: comparing is
  comparing, magnitudes are absolute values, every value is finite and every whole number is one.
-/
import InitialValue.Number.Number
import Mathlib.Algebra.Order.Ring.Rat
import Mathlib.Tactic.Linarith

namespace InitialValue

namespace Scalar

theorem lt_rat_iff {a b : Rat} : Scalar.lt a b = true ↔ a < b := by
  show (some (compareOfLessAndEq a b) == some .lt) = true ↔ a < b
  unfold compareOfLessAndEq
  split
  · rename_i h
    exact ⟨fun _ => h, fun _ => rfl⟩
  · rename_i h
    split
    · exact ⟨fun h' => by simp at h', fun h' => absurd h' h⟩
    · exact ⟨fun h' => by simp at h', fun h' => absurd h' h⟩

theorem le_rat_iff {a b : Rat} : Scalar.le a b = true ↔ a ≤ b := by
  show ((some (compareOfLessAndEq a b)).elim false (· != .gt)) = true ↔ a ≤ b
  unfold compareOfLessAndEq
  split
  · rename_i h
    exact ⟨fun _ => h.le, fun _ => rfl⟩
  · rename_i h
    split
    · rename_i heq
      exact ⟨fun _ => heq.le, fun _ => rfl⟩
    · rename_i hne
      constructor
      · intro h'
        simp at h'
      · intro hle
        exact absurd (lt_of_le_of_ne hle hne) h

theorem magnitude_rat (a : Rat) : Scalar.magnitude a = |a| := by
  show (if a < 0 then -a else a) = |a|
  split
  · rename_i h
    rw [abs_of_neg h]
  · rename_i h
    rw [abs_of_nonneg (not_lt.mp h)]

end Scalar

end InitialValue
