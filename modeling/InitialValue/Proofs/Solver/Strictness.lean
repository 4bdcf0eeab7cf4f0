/-
  Strictness does not matter to coupled systems.

  Strict advice refuses a step that it finds invalid.  For a coupled system it never comes to that:
  advice finds a step invalid when it is not positive or longer than the domain, and both are
  against the bounds, which are checked before anyone asks for advice.

  1. **Advice behind the bounds** — `Advice.valid_of_bounds`: a step within the bounds is valid.
  2. **Checking and solving** — `Solver.strictness_irrelevant`: two configurations that differ in
     strictness alone give the same verdict and the same outcome.
-/
import InitialValue.Proofs.Solver.Acceptance
import InitialValue.Solver.Solve

namespace InitialValue

variable {α : Type} [Scalar α]

/-! ## Advice behind the bounds -/

/-- Bounds and advice measure the same length and compare the step with it in the same way, so a
    step that passed the bounds does not get into the two branches that find it invalid. -/
theorem Advice.valid_of_bounds {c : Config α} {t0 tEnd step : Number α} {a : Advice α}
    (hbounds : Settings.checkBounds c t0 tEnd step = .ok none)
    (h : Advice.coupled step t0 tEnd = .ok a) : a.valid = true := by
  obtain ⟨length, hlength, hpositive, hfits, -⟩ := Settings.checkBounds_passes hbounds
  unfold Advice.coupled at h
  obtain ⟨length', hlength', h⟩ := bind_eq_ok.mp h
  obtain rfl : length' = length := by
    rw [hlength] at hlength'
    exact (ok_eq_ok.mp hlength').symm
  simp only [hpositive, hfits, Bool.false_eq_true, if_false] at h
  obtain ⟨tenth, -, h⟩ := bind_eq_ok.mp h
  split at h
  · obtain ⟨s, -, h⟩ := bind_eq_ok.mp h
    cases h
    rfl
  · obtain ⟨least, -, h⟩ := bind_eq_ok.mp h
    split at h
    · obtain ⟨s, -, h⟩ := bind_eq_ok.mp h
      cases h
      rfl
    · cases h
      rfl

/-! ## Checking -/

namespace Settings

variable {σ : Type} (c : Config α) (strict strict' : Value α)

/-- Valid advice is taken alike. -/
theorem takeAdvice_strictness {a : Advice α} (h : a.valid = true) :
    takeAdvice { c with strictStepSize := strict } a =
      takeAdvice { c with strictStepSize := strict' } a := by
  unfold takeAdvice
  rw [h]
  rfl

/-- The shared rules decide alike if a step within the bounds gets valid advice. -/
theorem settle_strictness {options : Value α} {t0 tEnd step : Parameter α} {y0 : σ}
    {tooLarge? : Except Foreign (Option Violation)}
    {judge : Number α → Number α → Number α → Except Foreign (Advice α)}
    (hjudge : ∀ a, checkBounds c t0.given tEnd.given step.given = .ok none →
      judge step.given t0.given tEnd.given = .ok a → a.valid = true) :
    settle { c with strictStepSize := strict } options t0 tEnd step y0 tooLarge? judge =
      settle { c with strictStepSize := strict' } options t0 tEnd step y0 tooLarge? judge := by
  -- the bounds do not look at strictness
  have hsame : ∀ s, checkBounds { c with strictStepSize := s } t0.given tEnd.given step.given =
      checkBounds c t0.given tEnd.given step.given := fun _ => rfl
  unfold settle
  rw [hsame strict, hsame strict']
  rcases hbounds : checkBounds c t0.given tEnd.given step.given with e | _ | v
  · rfl
  · rcases tooLarge? with e | _ | v
    · rfl
    · cases iterationCap? options with
      | none => rfl
      | some cap =>
        cases hadvice : judge step.given t0.given tEnd.given with
        | error e => rfl
        | ok a =>
          have htake := takeAdvice_strictness c strict strict' (hjudge a hbounds hadvice)
          simp only [bind, Except.bind, htake]
    · rfl
  · rfl

/-- **Checking the options of a coupled system** does not depend on strictness. -/
theorem coupled_strictness (options : Value α) :
    coupled { c with strictStepSize := strict } options =
      coupled { c with strictStepSize := strict' } options := by
  have hsettle : ∀ {t0 tEnd step : Parameter α} {y0 : List α}
      {tooLarge? : Except Foreign (Option Violation)},
      settle { c with strictStepSize := strict } options t0 tEnd step y0 tooLarge?
          Advice.coupled =
        settle { c with strictStepSize := strict' } options t0 tEnd step y0 tooLarge?
          Advice.coupled :=
    settle_strictness c strict strict' fun _ => Advice.valid_of_bounds
  unfold coupled
  simp only [hsettle]

end Settings

/-! ## Solving -/

namespace Solver

/-- Beyond the check, a call takes nothing but the divergence threshold from the configuration. -/
theorem solveWith_congr {σ : Type} [State α σ] {form : Form α σ} {c c' : Config α}
    {options : Value α} (hthreshold : c.divergenceThreshold = c'.divergenceThreshold)
    (hcheck : form.check c options = form.check c' options) (f : RightSide α) :
    (Solver.mk form c).solveWith f options = (Solver.mk form c').solveWith f options := by
  have hplan : ∀ method settings,
      (Solver.mk form c).plan f method settings = (Solver.mk form c').plan f method settings := by
    intro method settings
    unfold plan
    rw [hthreshold]
  have hproceed : ∀ settings warnings run,
      (Solver.mk form c).proceed f options settings warnings run =
        (Solver.mk form c').proceed f options settings warnings run := by
    intro settings warnings run
    unfold proceed integrate
    simp only [hplan]
    rfl
  unfold solveWith
  simp only [hcheck, hproceed]
  rfl

/-- **Strictness cannot affect coupled systems.**  Two configurations that differ in nothing else
    check any options with the same verdict, warnings included, and solve any right-hand side with
    the same outcome; and no step within the bounds gets invalid advice. -/
theorem strictness_irrelevant (c : Config α) (strict strict' : Value α)
    (f : RightSide α) (options : Value α) :
    Settings.coupled { c with strictStepSize := strict } options =
        Settings.coupled { c with strictStepSize := strict' } options ∧
      (Solver.mk .coupled { c with strictStepSize := strict }).solveWith f options =
        (Solver.mk .coupled { c with strictStepSize := strict' }).solveWith f options ∧
      ∀ t0 tEnd step a, Settings.checkBounds c t0 tEnd step = .ok none →
        Advice.coupled step t0 tEnd = .ok a → a.valid = true := by
  have hcheck := Settings.coupled_strictness c strict strict' options
  refine ⟨hcheck, ?_, fun _ _ _ _ => Advice.valid_of_bounds⟩
  exact solveWith_congr (by rfl) hcheck f

end Solver

end InitialValue
