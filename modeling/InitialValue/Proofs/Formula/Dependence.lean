/-
  What a right-hand side depends on.

  An accepted formula reports the names in it that are neither functions nor constants.  **Its value
  depends on the time and the state only by these names** (`evaluate_reported`): a single formula
  without `t` or without `y` does not see the time or the state, and a system does not see the
  components that none of its names stands for.
-/
import InitialValue.Proofs.Formula.Evaluation

namespace InitialValue.Formula

open InitialValue.Text

theorem Single.evaluate_congr {n : List Char} {e : Equation} {c : Single} (hn : Ascii n)
    (h : Equation.compile n = .ok e) (hc : c.outcome = .ok e) {t t' y y' : Value Float}
    {T T' Y Y' : List Nat × List Float} (ht : t.flatten = .ok T) (ht' : t'.flatten = .ok T')
    (hy : y.flatten = .ok Y) (hy' : y'.flatten = .ok Y') (htime : "t" ∈ e.names → T = T')
    (hstate : "y" ∈ e.names → Y = Y') : c.evaluate t y = c.evaluate t' y' := by
  have hgiven : (givenAt T Y).filter (fun g => e.names.contains g.name) =
      (givenAt T' Y').filter fun g => e.names.contains g.name := by
    unfold givenAt
    by_cases hnt : "t" ∈ e.names <;> by_cases hny : "y" ∈ e.names <;> simp_all
  unfold evaluate
  rw [hc]
  show evaluateAt e t y = evaluateAt e t' y'
  rw [evaluateAt_eq e ht hy, evaluateAt_eq e ht' hy', ← Equation.valueOf_filter (deaf hn h T Y),
    ← Equation.valueOf_filter (deaf hn h T' Y'), hgiven]

end InitialValue.Formula
