/-
  Asking again about a suggested step, without rounding.

  What a judge suggests depends on the length `R` of the domain alone: a single equation is given
  `R / 20` or `R / 10000` (`Advice.single_gives`), a coupled system `R / 10`, `R / 50`, `R / 1000` or,
  when the step was not positive, the smaller of `1 / 10` and `R / 100` (`Advice.coupled_gives`).  A
  judge without a warning has nothing to suggest either, so a step inside the quiet band settles the
  matter (`Advice.single_silent`, `Advice.coupled_silent`).

  All these steps lie inside the quiet band of the judge that suggests them, but for `1 / 10` on a
  domain longer than ten thousand: there it is less than a hundred thousandth of the domain, and the
  judge of coupled systems warns of the very step it proposed.
-/
import InitialValue.Proofs.StepSize.Judgement
import Mathlib.Tactic.Linarith

namespace InitialValue

namespace Advice

open Number (Worth)
open Scalar.Faithful (ofRat)

variable {α : Type}

/-- Advice is silent unless it warns, and a step that it suggests is one of these. -/
structure Gives (adv : Advice α) (steps : α → Prop) : Prop where
  silent_of_quiet : adv.warning = none → adv = silent
  suggested : ∀ x, adv.suggested = some x → steps x

section

variable {steps : α → Prop} {valid : Bool} {w : String}

theorem gives_silent : (silent : Advice α).Gives steps where
  silent_of_quiet := fun _ => rfl
  suggested := fun _ h => nomatch h

theorem gives_warning : (⟨valid, none, some w⟩ : Advice α).Gives steps where
  silent_of_quiet := fun h => nomatch h
  suggested := fun _ h => nomatch h

theorem gives_step {x : α} (h : steps x) : (⟨valid, some x, some w⟩ : Advice α).Gives steps where
  silent_of_quiet := fun h => nomatch h
  suggested := fun _ hx => Option.some.inj hx ▸ h

end

variable [Scalar α] [Scalar.Ordered α] [Scalar.Faithful α] {step t0 tEnd : Number α} {s a b : ℚ}

/-! ## Single equations -/

theorem tooLarge_gives {length : Number α} {R : ℚ} (h : length.Worth R) {steps : α → Prop}
    (hstep : steps (ofRat (R / 20))) : ∃ adv, tooLarge length = .ok adv ∧ adv.Gives steps := by
  unfold tooLarge
  rw [Number.div_whole_worth h (by decide)]
  exact ⟨_, rfl, gives_step (by exact_mod_cast hstep)⟩

theorem tooSmall_gives {length : Number α} {R : ℚ} (h : length.Worth R) {steps : α → Prop}
    (hstep : steps (ofRat (R / 10000))) : ∃ adv, tooSmall length = .ok adv ∧ adv.Gives steps := by
  unfold tooSmall
  rw [Number.div_whole_worth h (by decide)]
  exact ⟨_, rfl, gives_step (by exact_mod_cast hstep)⟩

/-- A single equation is given a twentieth or a ten thousandth of the domain. -/
theorem single_gives (hstep : step.Worth s) (ht0 : t0.Worth a) (htEnd : tEnd.Worth b) :
    ∃ adv, single step t0 tEnd = .ok adv ∧
      adv.Gives fun x => x = ofRat (|b - a| / 20) ∨ x = ofRat (|b - a| / 10000) := by
  obtain ⟨d, hd, hlength⟩ := Number.length_worth ht0 htEnd
  unfold single
  rw [hd]
  simp only [bind, Except.bind]
  split
  · split
    · exact tooSmall_gives hlength (.inr rfl)
    · exact ⟨_, rfl, gives_silent⟩
  · rename_i hzero
    have hs : s ≠ 0 := by
      intro h
      exact hzero ((hstep.same_iff (Worth.whole 0)).mpr (by simpa using h))
    rw [Number.div_worth hlength hstep hs]
    dsimp only
    split_ifs
    · exact tooLarge_gives hlength (.inl rfl)
    · exact tooSmall_gives hlength (.inr rfl)
    · exact ⟨_, rfl, gives_warning⟩
    · exact ⟨_, rfl, gives_silent⟩

/-- Nothing is said of a step that makes between ten and fifty thousand steps. -/
theorem single_silent (hstep : step.Worth s) (ht0 : t0.Worth a) (htEnd : tEnd.Worth b) (hs : 0 < s)
    (hfew : 10 * s ≤ |b - a|) (hmany : |b - a| ≤ 50000 * s) :
    single step t0 tEnd = .ok silent := by
  obtain ⟨adv, hadv, hjudges⟩ := single_spec hstep ht0 htEnd hs
  obtain ⟨adv', hadv', hgives⟩ := single_gives hstep ht0 htEnd
  obtain rfl : adv = adv' := Except.ok.inj (hadv.symm.trans hadv')
  rw [hadv, hgives.silent_of_quiet (hjudges.warning_iff.mpr ⟨hfew, hmany⟩)]

/-! ## Coupled systems -/

/-- A coupled system is given a part of the domain, and a tenth at most when the step was not
    positive. -/
theorem coupled_gives (hstep : step.Worth s) (ht0 : t0.Worth a) (htEnd : tEnd.Worth b) :
    ∃ adv, coupled step t0 tEnd = .ok adv ∧ adv.Gives fun x =>
      (s ≤ 0 ∧ x = ofRat (min (1 / 10) (|b - a| / 100))) ∨
      (0 < s ∧ ∃ n : ℤ, n ∈ [10, 50, 1000] ∧ x = ofRat (|b - a| / n)) := by
  obtain ⟨d, hd, hlength⟩ := Number.length_worth ht0 htEnd
  have hshare : ∀ n : ℤ, n ≠ 0 → d.magnitude.div (.whole n) = .ok (ofRat (|b - a| / n)) :=
    fun n hn => Number.div_whole_worth hlength hn
  have htenth : (0.1 : α) = ofRat (1 / 10) := by
    rw [Scalar.Faithful.ofScientific_eq]
    norm_num
  unfold coupled
  rw [hd]
  simp only [bind, Except.bind, hshare 10 (by decide), hshare 50 (by decide),
    hshare 100 (by decide), hshare 1000 (by decide), hshare 100000 (by decide)]
  split
  · rename_i hsign
    have hs : s ≤ 0 := by simpa using (hstep.le_iff (Worth.whole 0)).mp hsign
    refine ⟨_, rfl, gives_step (.inl ⟨hs, ?_⟩)⟩
    rw [htenth, Scalar.Faithful.smaller_ofRat]
    norm_cast
  · rename_i hsign
    have hs : 0 < s := by simpa using mt (hstep.le_iff (Worth.whole 0)).mpr hsign
    split_ifs
    · exact ⟨_, rfl, gives_step (.inr ⟨hs, 10, by decide, rfl⟩)⟩
    · exact ⟨_, rfl, gives_step (.inr ⟨hs, 50, by decide, rfl⟩)⟩
    · exact ⟨_, rfl, gives_step (.inr ⟨hs, 1000, by decide, rfl⟩)⟩
    · exact ⟨_, rfl, gives_silent⟩

/-- Nothing is said of a step from a hundred thousandth to a tenth of the domain. -/
theorem coupled_silent (hstep : step.Worth s) (ht0 : t0.Worth a) (htEnd : tEnd.Worth b)
    (hs : 0 < s) (hleast : |b - a| / 100000 ≤ s) (hmost : s ≤ |b - a| / 10) :
    coupled step t0 tEnd = .ok silent := by
  obtain ⟨adv, hadv, hjudges⟩ := coupled_spec hstep ht0 htEnd hs
  obtain ⟨adv', hadv', hgives⟩ := coupled_gives hstep ht0 htEnd
  obtain rfl : adv = adv' := Except.ok.inj (hadv.symm.trans hadv')
  rw [hadv, hgives.silent_of_quiet (hjudges.warning_iff.mpr ⟨hleast, hmost⟩)]

/-- A step below a hundred thousandth of the domain passes with a warning, and a thousandth is
    suggested. -/
theorem coupled_slow (hstep : step.Worth s) (ht0 : t0.Worth a) (htEnd : tEnd.Worth b) (hs : 0 < s)
    (hleast : s < |b - a| / 100000) :
    coupled step t0 tEnd = .ok ⟨true, some (ofRat (|b - a| / 1000)),
      some "Very small step size may lead to slow computation"⟩ := by
  obtain ⟨d, hd, hlength⟩ := Number.length_worth ht0 htEnd
  have hshare : ∀ n : ℤ, n ≠ 0 → d.magnitude.div (.whole n) = .ok (ofRat (|b - a| / n)) :=
    fun n hn => Number.div_whole_worth hlength hn
  have hpart : ∀ n : ℤ, (Number.real (ofRat (|b - a| / n)) : Number α).Worth (|b - a| / n) :=
    fun n => Number.worth_ofRat _
  have hpositive : ¬ step.le (.whole 0) = true := by
    rw [hstep.le_iff (Worth.whole 0), Int.cast_zero]
    exact not_le.mpr hs
  have hinside : ¬ d.magnitude.lt step = true := by
    rw [hlength.lt_iff hstep]
    linarith
  have htenth : ¬ (Number.real (ofRat (|b - a| / (10 : ℤ)))).lt step = true := by
    rw [(hpart 10).lt_iff hstep]
    push_cast
    linarith
  have hsmall : step.lt (Number.real (ofRat (|b - a| / (100000 : ℤ)))) = true := by
    rw [hstep.lt_iff (hpart 100000)]
    exact_mod_cast hleast
  unfold coupled
  rw [hd]
  simp only [bind, Except.bind, hshare 10 (by decide), hshare 1000 (by decide),
    hshare 100000 (by decide)]
  rw [if_neg hpositive, if_neg hinside, if_neg htenth, if_pos hsmall]
  norm_cast

/-! ## Following the advice -/

/-- **A suggested step settles the matter.**  On a domain that is not empty both judges answer,
    whatever the step, and to a step that they suggested they have nothing to say; but a coupled
    system with a step that is not positive, on a domain longer than ten thousand, is given a tenth,
    which passes with a warning. -/
theorem suggested_settles (hstep : step.Worth s) (ht0 : t0.Worth a) (htEnd : tEnd.Worth b)
    (hab : a ≠ b) :
    (∃ adv, single step t0 tEnd = .ok adv ∧
      ∀ x, adv.suggested = some x → single (.real x) t0 tEnd = .ok silent) ∧
    ∃ adv, coupled step t0 tEnd = .ok adv ∧ ∀ x, adv.suggested = some x →
      (0 < s ∨ |b - a| ≤ 10000 → coupled (.real x) t0 tEnd = .ok silent) ∧
      (s ≤ 0 → 10000 < |b - a| → x = ofRat (1 / 10) ∧
        coupled (.real x) t0 tEnd = .ok ⟨true, some (ofRat (|b - a| / 1000)),
          some "Very small step size may lead to slow computation"⟩) := by
  have hR : 0 < |b - a| := abs_pos.mpr (sub_ne_zero.mpr hab.symm)
  obtain ⟨one, hone, hgivesOne⟩ := single_gives hstep ht0 htEnd
  obtain ⟨many, hmany, hgivesMany⟩ := coupled_gives hstep ht0 htEnd
  refine ⟨⟨one, hone, fun x hx => ?_⟩, many, hmany, fun x hx => ⟨fun hwell => ?_, fun hs hlong => ?_⟩⟩
  · obtain rfl | rfl := hgivesOne.suggested x hx
    all_goals
      exact single_silent (Number.worth_ofRat _) ht0 htEnd (by linarith) (by linarith) (by linarith)
  · obtain ⟨hs, rfl⟩ | ⟨-, n, hn, rfl⟩ := hgivesMany.suggested x hx
    · -- the cap of a tenth is no less than a hundred thousandth of such a domain
      have hshort : |b - a| ≤ 10000 := hwell.resolve_left (not_lt.mpr hs)
      refine coupled_silent (Number.worth_ofRat _) ht0 htEnd ?_ ?_ ?_
      · exact lt_min (by norm_num) (by linarith)
      · exact le_min (by linarith) (by linarith)
      · exact (min_le_right _ _).trans (by linarith)
    · have hbounds : (10 : ℚ) ≤ n ∧ (n : ℚ) ≤ 100000 := by
        simp only [List.mem_cons, List.not_mem_nil, or_false] at hn
        obtain rfl | rfl | rfl := hn <;> norm_num
      have hpos : (0 : ℚ) < n := by linarith
      exact coupled_silent (Number.worth_ofRat _) ht0 htEnd (div_pos hR hpos)
        (div_le_div_of_nonneg_left hR.le hpos hbounds.2)
        (div_le_div_of_nonneg_left hR.le (by norm_num) hbounds.1)
  · obtain ⟨-, rfl⟩ | ⟨hpos, -⟩ := hgivesMany.suggested x hx
    · have htenth : min (1 / 10) (|b - a| / 100) = 1 / 10 := min_eq_left (by linarith)
      rw [htenth]
      exact ⟨rfl, coupled_slow (Number.worth_ofRat _) ht0 htEnd (by norm_num) (by linarith)⟩
    · exact absurd hpos (not_lt.mpr hs)

/-- A negative step on the domain from five to two. -/
theorem suggested_settles_negative :
    (Number.whole (-1) : Number ℚ).Worth (-1) ∧ (Number.whole 5 : Number ℚ).Worth 5 ∧
    (Number.real 2 : Number ℚ).Worth 2 ∧ (5 : ℚ) ≠ 2 ∧
    (∃ adv, single (.whole (-1)) (.whole 5) (.real (2 : ℚ)) = .ok adv ∧
      ∀ x, adv.suggested = some x → single (.real x) (.whole 5) (.real 2) = .ok silent) ∧
    ∃ adv, coupled (.whole (-1)) (.whole 5) (.real (2 : ℚ)) = .ok adv ∧
      ∀ x, adv.suggested = some x → coupled (.real x) (.whole 5) (.real 2) = .ok silent := by
  have hstep : (Number.whole (-1) : Number ℚ).Worth (-1) := by exact_mod_cast Worth.whole (-1)
  have ht0 : (Number.whole 5 : Number ℚ).Worth 5 := by exact_mod_cast Worth.whole 5
  have htEnd : (Number.real 2 : Number ℚ).Worth 2 := Number.worth_ofRat 2
  obtain ⟨hone, adv, hadv, hmany⟩ := suggested_settles hstep ht0 htEnd (by norm_num)
  exact ⟨hstep, ht0, htEnd, by norm_num, hone, adv, hadv,
    fun x hx => (hmany x hx).1 (.inr (by norm_num [abs_of_neg]))⟩

/-- On the domain from 0 to 20000, the step suggested in place of a zero step is warned of. -/
theorem capped_step_unsettled :
    coupled (.whole 0) (.whole 0) (.whole 20000) =
      .ok ⟨false, some (1 / 10 : ℚ), some "Step size must be positive"⟩ ∧
    coupled (.real (1 / 10 : ℚ)) (.whole 0) (.whole 20000) =
      .ok ⟨true, some 20, some "Very small step size may lead to slow computation"⟩ ∧
    coupled (.real (1 / 10 : ℚ)) (.whole 0) (.whole 20000) ≠ .ok silent := by
  have hagain : coupled (.real (1 / 10 : ℚ)) (.whole 0) (.whole 20000) =
      .ok ⟨true, some 20, some "Very small step size may lead to slow computation"⟩ := by
    cbv
  refine ⟨by cbv, hagain, ?_⟩
  rw [hagain]
  rintro ⟨⟩

end Advice

end InitialValue
