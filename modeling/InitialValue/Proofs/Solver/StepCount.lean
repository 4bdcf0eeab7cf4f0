/-
  How many steps a strict solver takes.

  Advice, rules and the loop never speak of each other, yet together they bound every run of a single
  equation.  Where advice is taken strictly, the domain is ten to a hundred thousand steps long; the
  loop takes the least number of steps that comes within a billionth of a step of the end, which is
  between the same bounds; and the usual cap is above them.  So **a run that is not given a cap never
  reaches one** (`solve_uncapped`).

  1. **The grid** — `Grid.le_least` and `Grid.least_le`: the tolerance of the loop is too small to save
     a whole step, so both bounds are kept, also where the domain is an exact multiple of the step.
  2. **Options** — `Settings.single_strict`: a step that is accepted strictly fits ten times into the
     domain, and a hundred thousand of it cover it.  `Settings.single_least`: so the end is reached in
     as many steps, between these bounds.
  3. **Runs** — `Journey.cap_lt_of_exhausted`: a run is cut off only by a cap below that number.
-/
import InitialValue.Proofs.Solver.ExactGrid
import InitialValue.Proofs.Solver.ExactOptions
import InitialValue.Proofs.StepSize.Judgement

namespace InitialValue

open Grid (reaching)

/-! ## The grid -/

namespace Grid

variable {t0 tEnd s : ℚ} {m n : ℕ}

/-- A domain of `m` steps at least is not reached in fewer. -/
theorem le_least (hs : 0 < s) (hm : m * s ≤ |tEnd - t0|) (hn : IsLeast (reaching t0 tEnd s) n) :
    m ≤ n := by
  have hreaches : |tEnd - t0| - n * s ≤ 1e-9 * s := hn.1.2
  by_contra hlt
  have hstep : (n : ℚ) + 1 ≤ m := by exact_mod_cast not_le.mp hlt
  have hsaved : ((n : ℚ) + 1) * s ≤ m * s := mul_le_mul_of_nonneg_right hstep hs.le
  linarith

/-- A domain of `m` steps at most is reached with them. -/
theorem least_le (hs : 0 < s) (hpos : 1 ≤ m) (hm : |tEnd - t0| ≤ m * s)
    (hn : IsLeast (reaching t0 tEnd s) n) : n ≤ m := by
  refine hn.2 ⟨hpos, ?_⟩
  have hsmall : (0 : ℚ) < 1e-9 * s := by positivity
  unfold Reaches
  linarith

end Grid

/-! ## Options -/

namespace Settings

variable {c : Config ℚ} {options : Value ℚ} {s : Settings ℚ ℚ} {warnings : List String}

/-- **A step that is accepted strictly** makes ten steps to a hundred thousand. -/
theorem single_strict (hstrict : c.strictStepSize.holds = true)
    (h : single c options = .ok ⟨.ok s, warnings⟩) :
    10 * s.stepSize ≤ |s.tEnd - s.t0| ∧ |s.tEnd - s.t0| ≤ 100000 * s.stepSize := by
  obtain ⟨hpos, -⟩ := single_step h
  obtain ⟨t0, _, tEnd, step, -, ht0, -, htEnd, hstep, -, -, hpassed⟩ := single_accepts.mp h
  rw [hpassed.stepSize, Value.parameter?_value hstep] at hpos ⊢
  rw [hpassed.t0, hpassed.tEnd, Value.parameter?_value ht0, Value.parameter?_value htEnd]
  obtain ⟨advice, hadvice, htake⟩ := hpassed.advice
  obtain ⟨advice', hadvice', hjudges⟩ := Advice.single_spec (Number.worth_value step.given)
    (Number.worth_value t0.given) (Number.worth_value tEnd.given) hpos
  obtain rfl : advice = advice' := Except.ok.inj (hadvice.symm.trans hadvice')
  exact hjudges.valid_iff.mp (takeAdvice_answers_iff.mp ⟨warnings, htake⟩ hstrict)

/-- Such a step reaches the end, after ten steps to a hundred thousand. -/
theorem single_least (hstrict : c.strictStepSize.holds = true)
    (h : single c options = .ok ⟨.ok s, warnings⟩) :
    ∃ n, IsLeast (reaching s.t0 s.tEnd s.stepSize) n ∧ 10 ≤ n ∧ n ≤ 100000 := by
  obtain ⟨hpos, -⟩ := single_step h
  obtain ⟨hfew, hmany⟩ := single_strict hstrict h
  obtain ⟨n, hn⟩ : ∃ n, IsLeast (reaching s.t0 s.tEnd s.stepSize) n := Grid.exists_isLeast hpos
  exact ⟨n, hn, Grid.le_least hpos (by exact_mod_cast hfew) hn,
    Grid.least_le hpos (by decide) (by exact_mod_cast hmany) hn⟩

/-- Options without a cap are given the usual one. -/
theorem single_usualCap (hcap : options.field? "max_iterations" = none)
    (h : single c options = .ok ⟨.ok s, warnings⟩) : s.maxIterations = usualCap := by
  obtain ⟨_, _, _, _, -, -, -, -, -, -, -, hpassed⟩ := single_accepts.mp h
  have hiterations := hpassed.cap
  unfold iterationCap? at hiterations
  rw [hcap] at hiterations
  exact (Option.some.inj hiterations).symm

end Settings

/-! ## Runs -/

namespace Journey

variable {σ : Type} [State ℚ σ] {plan : Plan ℚ σ} {y0 : σ} {t0 tEnd s : ℚ} {n : ℕ}

/-- A run that is cut off was not allowed the steps that reach the end. -/
theorem cap_lt_of_exhausted (hgrid : plan.grid = Grid.of t0 tEnd s) (hs : 0 < s)
    (hle : s ≤ |tEnd - t0|) (hn : IsLeast (reaching t0 tEnd s) n) {run : Run} {m : ℕ}
    (h : start plan y0 (.integrating 0) = (run, .error (.capReached m))) : plan.cap < n := by
  have hends := start_ends plan y0
  rw [h] at hends
  cases hends with
  | exhausted htrail hopen => exact (htrail.on_grid hgrid hs hle hn).2.1.mp hopen

end Journey

/-! ## Whole calls -/

/-- **Without a cap in the options, no run of a single equation is cut off** where step-size advice is
    taken strictly, whatever the rest of the configuration, the right-hand side and the method; and a
    run that succeeds has eleven points at least and a hundred thousand and one at most. -/
theorem solve_uncapped {c : Config ℚ} (hstrict : c.strictStepSize.holds = true) {options : Value ℚ}
    (hcap : options.field? "max_iterations" = none) (haccepts : Form.single.Accepts c options)
    (f : RightSide ℚ) :
    ∃ o, (⟨.single, c⟩ : Solver ℚ ℚ).solveWith f options = .ok o ∧
      (∀ m, o.solution.failure ≠ some (.halted (.capReached m))) ∧
      (o.solution.success = true →
        11 ≤ o.solution.points.length ∧ o.solution.points.length ≤ 100001) := by
  obtain ⟨settings, warnings, hcheck⟩ := haccepts
  obtain ⟨hpos, hle⟩ := Settings.single_step hcheck
  obtain ⟨n, hn, hten, hmost⟩ := Settings.single_least hstrict hcheck
  have husual : settings.maxIterations = Settings.usualCap := Settings.single_usualCap hcap hcheck
  obtain ⟨o, ho⟩ : ∃ o, (⟨.single, c⟩ : Solver ℚ ℚ).solveWith f options = .ok o :=
    Solver.solveWith_answers rfl f
  refine ⟨o, ho, fun m hm => ?_, fun hs => ?_⟩
  · cases (Solver.failsWith_iff.mp (Solver.failsWith_of_failure ho hm)).2 with
    | halted hcheck' _ hstart =>
      cases hcheck.symm.trans hcheck'
      have hlt := Journey.cap_lt_of_exhausted rfl hpos hle hn hstart
      have hcut : Settings.usualCap < n := husual ▸ hlt
      unfold Settings.usualCap at hcut
      omega
  · obtain ⟨_, _, method, j, hcheck', -, htrail, hclosed, -, rfl⟩ := Solver.solveWith_success ho hs
    cases hcheck.symm.trans hcheck'
    have hsteps := htrail.steps_eq rfl hpos hle hn hclosed
    have hlen : j.points.length = j.steps + 1 := htrail.count_points
    show 11 ≤ j.points.length ∧ j.points.length ≤ 100001
    omega

/-- From zero to one in exactly ten steps. -/
def tenSteps : Value ℚ := .record [("t0", .whole 0), ("y0", .whole 1), ("t_end", .whole 1),
  ("step_size", .real (1 / 10)), ("method", .key .euler)]

/-- Ten steps are just enough for the advice, and they make eleven points. -/
theorem solve_uncapped_ten :
    ∃ o, (⟨.single, .standard⟩ : Solver ℚ ℚ).solveWith rest tenSteps = .ok o ∧
      o.solution.success = true ∧ 11 ≤ o.solution.points.length := by
  have haccepts : Form.single.Accepts (.standard : Config ℚ) tenSteps :=
    Solver.accepts_of_seen (by decide +kernel)
  obtain ⟨o, ho, -, hcount⟩ := solve_uncapped (c := .standard) rfl rfl haccepts rest
  obtain ⟨o', ho', hs⟩ := exists_ok
    (x := (⟨.single, .standard⟩ : Solver ℚ ℚ).solveWith rest tenSteps)
    (p := (·.solution.success)) (by decide +kernel)
  obtain rfl : o = o' := Except.ok.inj (ho.symm.trans ho')
  exact ⟨o, ho, hs, (hcount hs).1⟩

end InitialValue
