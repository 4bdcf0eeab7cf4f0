/-
  What advice on a step size comes to, without rounding.

  Over a scalar that is faithful to the rationals, both judges compare the step `s` with the length
  `R` of the domain, and nothing else.

  * A single equation is judged by the number `R / s` of steps: below ten or above a hundred
    thousand the step is refused, and above fifty thousand there is a warning (`Advice.single_spec`).
  * A coupled system is refused a step that is longer than the domain only, but warned of one above a
    tenth of the domain or below a hundred thousandth (`Advice.coupled_spec`).
-/
import InitialValue.Proofs.Number.Faithful
import InitialValue.StepSize.Advice
import Mathlib.Tactic.FieldSimp
import Mathlib.Tactic.NormNum

namespace InitialValue

namespace Advice

open Number (Worth)
open Scalar.Faithful (ofRat)

variable {α : Type} [Scalar α] [Scalar.Ordered α] [Scalar.Faithful α]

/-- Advice judges a step: it lets it pass exactly if `fit`, and silently exactly if `quiet`. -/
structure Judges (a : Advice α) (fit quiet : Prop) : Prop where
  valid_iff : a.valid = true ↔ fit
  warning_iff : a.warning = none ↔ quiet

omit [Scalar α] [Scalar.Ordered α] [Scalar.Faithful α] in
theorem judges_silent {fit quiet : Prop} (hfit : fit) (hquiet : quiet) :
    (silent : Advice α).Judges fit quiet :=
  ⟨iff_of_true rfl hfit, iff_of_true rfl hquiet⟩

/-! ## Single equations -/

theorem tooLarge_judges {length : Number α} {R : ℚ} (h : length.Worth R) {fit quiet : Prop}
    (hfit : ¬ fit) (hquiet : ¬ quiet) : ∃ a, tooLarge length = .ok a ∧ a.Judges fit quiet := by
  unfold tooLarge
  rw [Number.div_whole_worth h (by decide)]
  exact ⟨_, rfl, iff_of_false (by rintro ⟨⟩) hfit, iff_of_false (by rintro ⟨⟩) hquiet⟩

theorem tooSmall_judges {length : Number α} {R : ℚ} (h : length.Worth R) {fit quiet : Prop}
    (hfit : ¬ fit) (hquiet : ¬ quiet) : ∃ a, tooSmall length = .ok a ∧ a.Judges fit quiet := by
  unfold tooSmall
  rw [Number.div_whole_worth h (by decide)]
  exact ⟨_, rfl, iff_of_false (by rintro ⟨⟩) hfit, iff_of_false (by rintro ⟨⟩) hquiet⟩

theorem fewer_iff {R s : ℚ} (hs : 0 < s) (n : ℤ) :
    (Scalar.compareInt? (ofRat (R / s) : α) n == some .lt) = true ↔ R < n * s := by
  rw [Scalar.Faithful.compareInt?_ofRat, beq_iff_eq, Option.some.injEq, cmp_eq_lt_iff,
    div_lt_iff₀ hs]

theorem more_iff {R s : ℚ} (hs : 0 < s) (n : ℤ) :
    (Scalar.compareInt? (ofRat (R / s) : α) n == some .gt) = true ↔ n * s < R := by
  rw [Scalar.Faithful.compareInt?_ofRat, beq_iff_eq, Option.some.injEq, cmp_eq_gt_iff,
    lt_div_iff₀ hs]

section

variable {step t0 tEnd : Number α} {s a b : ℚ}

/-- **Advice on a step for a single equation**: it is fit when it makes ten steps to a hundred
    thousand, and nothing is said up to fifty thousand. -/
theorem single_spec (hstep : step.Worth s) (ht0 : t0.Worth a) (htEnd : tEnd.Worth b) (hs : 0 < s) :
    ∃ adv, single step t0 tEnd = .ok adv ∧
      adv.Judges (10 * s ≤ |b - a| ∧ |b - a| ≤ 100000 * s)
        (10 * s ≤ |b - a| ∧ |b - a| ≤ 50000 * s) := by
  obtain ⟨d, hd, hlength⟩ := Number.length_worth ht0 htEnd
  have hzero : step.same (.whole 0) = false := by
    rw [Bool.eq_false_iff, ne_eq, hstep.same_iff (Worth.whole 0), Int.cast_zero]
    exact hs.ne'
  unfold single
  rw [hd]
  simp only [bind, Except.bind, hzero, Bool.false_eq_true, if_false,
    Number.div_worth hlength hstep hs.ne']
  split
  · rename_i hfew
    have hfew : |b - a| < 10 * s := by simpa [fewestSteps] using (fewer_iff hs _).mp hfew
    exact tooLarge_judges hlength (fun h => absurd h.1 (not_le.mpr hfew))
      (fun h => absurd h.1 (not_le.mpr hfew))
  · rename_i hfew
    have hfew : 10 * s ≤ |b - a| := by
      simpa [fewestSteps] using mt (fewer_iff hs _).mpr hfew
    split
    · rename_i hmost
      have hmost : 100000 * s < |b - a| := by simpa [mostSteps] using (more_iff hs _).mp hmost
      exact tooSmall_judges hlength (fun h => absurd h.2 (not_le.mpr hmost))
        (fun h => absurd h.2 (not_le.mpr (by linarith)))
    · rename_i hmost
      have hmost : |b - a| ≤ 100000 * s := by
        simpa [mostSteps] using mt (more_iff hs _).mpr hmost
      split
      · rename_i hmany
        have hmany : 50000 * s < |b - a| := by simpa [manySteps] using (more_iff hs _).mp hmany
        exact ⟨_, rfl, iff_of_true rfl ⟨hfew, hmost⟩,
          iff_of_false (by rintro ⟨⟩) fun h => absurd h.2 (not_le.mpr hmany)⟩
      · rename_i hmany
        have hmany : |b - a| ≤ 50000 * s := by
          simpa [manySteps] using mt (more_iff hs _).mpr hmany
        exact ⟨_, rfl, judges_silent ⟨hfew, hmost⟩ ⟨hfew, hmany⟩⟩

/-! ## Coupled systems -/

/-- **Advice on a step for a coupled system**: it is fit when it is no longer than the domain, and
    nothing is said from a hundred thousandth to a tenth of it. -/
theorem coupled_spec (hstep : step.Worth s) (ht0 : t0.Worth a) (htEnd : tEnd.Worth b) (hs : 0 < s) :
    ∃ adv, coupled step t0 tEnd = .ok adv ∧
      adv.Judges (s ≤ |b - a|) (|b - a| / 100000 ≤ s ∧ s ≤ |b - a| / 10) := by
  obtain ⟨d, hd, hlength⟩ := Number.length_worth ht0 htEnd
  have hpos : step.le (.whole 0) = false := by
    rw [Bool.eq_false_iff, ne_eq, hstep.le_iff (Worth.whole 0), Int.cast_zero, not_le]
    exact hs
  have hshare : ∀ n : ℤ, n ≠ 0 → d.magnitude.div (.whole n) = .ok (ofRat (|b - a| / n)) :=
    fun n hn => Number.div_whole_worth hlength hn
  have hpart : ∀ n : ℤ, (Number.real (ofRat (|b - a| / n)) : Number α).Worth (|b - a| / n) :=
    fun n => Number.worth_ofRat _
  have hR := abs_nonneg (b - a)
  unfold coupled
  rw [hd]
  simp only [bind, Except.bind, hpos, Bool.false_eq_true, if_false,
    hshare 10 (by decide), hshare 50 (by decide), hshare 1000 (by decide),
    hshare 100000 (by decide)]
  -- longer than the domain, more than a tenth of it, less than a hundred thousandth, or neither
  split
  · rename_i hlong
    rw [hlength.lt_iff hstep] at hlong
    refine ⟨_, rfl, iff_of_false (by rintro ⟨⟩) (not_le.mpr hlong),
      iff_of_false (by rintro ⟨⟩) fun h => absurd h.2 (not_le.mpr ?_)⟩
    linarith
  · rename_i hlong
    rw [hlength.lt_iff hstep, not_lt] at hlong
    split
    · rename_i hlarge
      rw [(hpart 10).lt_iff hstep] at hlarge
      exact ⟨_, rfl, iff_of_true rfl hlong,
        iff_of_false (by rintro ⟨⟩) fun h => absurd h.2 (not_le.mpr (by exact_mod_cast hlarge))⟩
    · rename_i hlarge
      rw [(hpart 10).lt_iff hstep, not_lt] at hlarge
      split
      · rename_i hsmall
        rw [hstep.lt_iff (hpart 100000)] at hsmall
        exact ⟨_, rfl, iff_of_true rfl hlong,
          iff_of_false (by rintro ⟨⟩) fun h => absurd h.1 (not_le.mpr (by exact_mod_cast hsmall))⟩
      · rename_i hsmall
        rw [hstep.lt_iff (hpart 100000), not_lt] at hsmall
        exact ⟨_, rfl, judges_silent hlong
          ⟨by exact_mod_cast hsmall, by exact_mod_cast hlarge⟩⟩

end

end Advice

end InitialValue
