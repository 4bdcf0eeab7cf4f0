/-
  Which warnings are issued.

  The only source of warnings is the advice on the step size, and it is asked for last, when no rule
  is broken.  So checking issues one warning at most, and none when it refuses; a call issues what
  its check issued, however it goes on.

  1. **Verdicts** — `Verdict.Disciplined` lists what holds of the warnings of a verdict; a refusal is
     silent (`Settings.single_refused`, `Settings.coupled_refused`), and accepted options come with
     what `Settings.Passed.warnings_eq` says.
  2. **Calls** — every stage hands the warnings on (`Solver.issued_proceed`), and a call that has no
     answer had none to hand on (`Solver.issued_solveWith`).
  3. **Both solvers** — `warnings_disciplined`.
-/
import InitialValue.Proofs.Solver.Answers

namespace InitialValue

variable {α σ : Type}

/-! ## Verdicts -/

/-- The warnings that a check issues; a check that fails issues none. -/
def Verdict.issued : Except Foreign (Verdict α σ) → List String
  | .ok v => v.warnings
  | .error _ => []

/-- The warnings that a call issues; a call without an answer issues none. -/
def Outcome.issued : Except Foreign (Outcome α σ) → List String
  | .ok o => o.warnings
  | .error _ => []

section

variable [Scalar α]

/-- The warning of advice as it is passed on, if there is one. -/
def Advice.passedOn (a : Advice α) : List String :=
  (a.warning.map fun text => "Step size advisory: " ++ text).toList

/-- What a judge says about the step size and the domain of options, which are numbers. -/
def Advice.IsOn (judge : Number α → Number α → Number α → Except Foreign (Advice α))
    (options : Value α) (a : Advice α) : Prop :=
  ∃ step t0 tEnd, (options.option "step_size").number? = some step ∧
    (options.option "t0").number? = some t0 ∧ (options.option "t_end").number? = some tEnd ∧
    judge step t0 tEnd = .ok a

/-- **Discipline of a verdict**: one warning at most; none with a refusal or when warnings are
    turned off; else exactly the warning of the advice on step size and domain. -/
structure Verdict.Disciplined (c : Config α) (options : Value α)
    (judge : Number α → Number α → Number α → Except Foreign (Advice α)) (v : Verdict α σ) :
    Prop where
  atMostOne : v.warnings.length ≤ 1
  refused : ∀ rule, v.result = .error rule → v.warnings = []
  turnedOff : c.warnOnStepSize.holds = false → v.warnings = []
  accepted : ∀ s, v.result = .ok s → c.warnOnStepSize.holds = true →
    ∃ a, Advice.IsOn judge options a ∧ v.warnings = a.passedOn

omit [Scalar α] in
theorem Advice.length_passedOn (a : Advice α) : a.passedOn.length ≤ 1 := by
  unfold passedOn
  cases a.warning <;> simp

namespace Settings

variable {c : Config α} {options : Value α} {rule : Violation} {warnings : List String}

/-- What is taken of advice that lets options pass. -/
theorem takeAdvice_warnings {a : Advice α} (h : takeAdvice c a = .ok warnings) :
    warnings = if c.warnOnStepSize.holds then a.passedOn else [] := by
  unfold takeAdvice at h
  unfold Advice.passedOn
  split at h
  · cases h
  · split at h
    · rename_i text hwarning
      cases h
      rw [hwarning]
      rfl
    · rename_i hwarning
      cases h
      rw [hwarning]
      exact (ite_self _).symm

/-- Accepted options come with the advice on their step size. -/
theorem Passed.warnings_eq {t0 tEnd step : Parameter α}
    {judge : Number α → Number α → Number α → Except Foreign (Advice α)} {s : Settings α σ}
    (h : Passed c options t0 tEnd step judge s warnings)
    (ht0 : (options.option "t0").parameter? = .ok (some t0))
    (htEnd : (options.option "t_end").parameter? = .ok (some tEnd))
    (hstep : (options.option "step_size").parameter? = .ok (some step)) :
    ∃ a, Advice.IsOn judge options a ∧
      warnings = if c.warnOnStepSize.holds then a.passedOn else [] := by
  obtain ⟨a, ha, htake⟩ := h.advice
  exact ⟨a, ⟨step.given, t0.given, tEnd.given, (Value.parameter?_eq_some.mp hstep).1,
    (Value.parameter?_eq_some.mp ht0).1, (Value.parameter?_eq_some.mp htEnd).1, ha⟩,
    takeAdvice_warnings htake⟩

end Settings

/-! ## Forms that warn with discipline -/

/-- What a call needs of its form: a refusal is silent, accepted options come with the advice of the
    judge, and a failed solution can be made for them. -/
structure Form.Warns (form : Form α σ) (c : Config α) (options : Value α)
    (judge : Number α → Number α → Number α → Except Foreign (Advice α)) : Prop where
  refused : ∀ {rule warnings}, form.check c options = .ok ⟨.error rule, warnings⟩ → warnings = []
  accepted : ∀ {s warnings}, form.check c options = .ok ⟨.ok s, warnings⟩ →
    ∃ a, Advice.IsOn judge options a ∧
      warnings = if c.warnOnStepSize.holds then a.passedOn else []
  width : ∀ {s warnings}, form.check c options = .ok ⟨.ok s, warnings⟩ →
    ∃ n, form.width options = .ok n

theorem Form.single_warns (c : Config α) (options : Value α) :
    Form.single.Warns c options Advice.single where
  refused h := (Settings.single_refused h).2
  accepted h := by
    obtain ⟨t0, y0, tEnd, step, -, ht0, -, htEnd, hstep, -, -, hpassed⟩ :=
      Settings.single_accepts.mp h
    exact hpassed.warnings_eq ht0 htEnd hstep
  width _ := ⟨1, rfl⟩

theorem Form.coupled_warns (c : Config α) (options : Value α) :
    Form.coupled.Warns c options Advice.coupled where
  refused h := (Settings.coupled_refused h).2
  accepted h := by
    obtain ⟨t0, tEnd, step, items, y0, -, ht0, htEnd, hstep, -, -, -, -, -, hpassed⟩ :=
      Settings.coupled_accepts.mp h
    exact hpassed.warnings_eq ht0 htEnd hstep
  width h := Solver.width_of_accepted h

theorem Form.Warns.disciplined {form : Form α σ} {c : Config α} {options : Value α}
    {judge : Number α → Number α → Number α → Except Foreign (Advice α)}
    (h : form.Warns c options judge) {v : Verdict α σ} (hv : form.check c options = .ok v) :
    v.Disciplined c options judge := by
  obtain ⟨rule | s, warnings⟩ := v
  · obtain rfl := h.refused hv
    exact ⟨Nat.zero_le 1, fun _ _ => rfl, fun _ => rfl, (fun _ hresult => nomatch hresult)⟩
  · obtain ⟨a, ha, rfl⟩ := h.accepted hv
    refine ⟨?_, (fun _ hresult => nomatch hresult), fun hoff => ?_, fun _ _ hon => ⟨a, ha, ?_⟩⟩
    · show (if c.warnOnStepSize.holds then a.passedOn else []).length ≤ 1
      split
      · exact a.length_passedOn
      · exact Nat.zero_le 1
    · show (if c.warnOnStepSize.holds then a.passedOn else []) = []
      rw [hoff, if_neg Bool.false_ne_true]
    · show (if c.warnOnStepSize.holds then a.passedOn else []) = a.passedOn
      rw [if_pos hon]

end

/-! ## Calls -/

namespace Solver

variable [Scalar α] [State α σ] {s : Solver α σ} {options : Value α}
  {judge : Number α → Number α → Number α → Except Foreign (Advice α)}

omit [State α σ] in
/-- A failed call issues the warnings it was given, as long as its solution can be made. -/
theorem issued_fail {n : ℕ} (hwidth : s.form.width options = .ok n) (run : Run)
    (warnings : List String) (failure : Failure) :
    Outcome.issued (s.fail options run warnings failure) = warnings := by
  unfold fail
  rw [hwidth]
  rfl

omit [State α σ] in
/-- A call that fails before there are warnings issues none, whether it is answered or not. -/
theorem issued_fail_silent (run : Run) (failure : Failure) :
    Outcome.issued (s.fail options run [] failure) = [] := by
  cases hwidth : s.form.width options with
  | ok n => exact issued_fail hwidth run [] failure
  | error e =>
    rw [fail_eq_error hwidth]
    rfl

/-- From the verdict on, nothing adds a warning or drops one. -/
theorem issued_proceed {n : ℕ} (hwidth : s.form.width options = .ok n) (f : RightSide α)
    (settings : Settings α σ) (warnings : List String) (run : Run) :
    Outcome.issued (s.proceed f options settings warnings run) = warnings := by
  unfold proceed
  dsimp only
  split
  · exact issued_fail hwidth _ _ _
  · split
    · exact issued_fail hwidth _ _ _
    · split
      · exact issued_fail hwidth _ _ _
      · unfold integrate
        split
        · exact issued_fail hwidth _ _ _
        · split
          · exact issued_fail hwidth _ _ _
          · rfl

/-- **A call issues the warnings of its check.** -/
theorem issued_solveWith (h : s.form.Warns s.config options judge) (f : RightSide α) :
    Outcome.issued (s.solveWith f options) = Verdict.issued (s.form.check s.config options) := by
  unfold solveWith
  rcases hcheck : s.form.check s.config options with e | ⟨rule | settings, warnings⟩
  · exact issued_fail_silent _ _
  · obtain rfl := h.refused hcheck
    exact issued_fail_silent _ _
  · obtain ⟨n, hwidth⟩ := h.width hcheck
    exact issued_proceed hwidth f settings warnings .fresh

/-- A call with a formula that was not read, or not found valid, issues no warnings. -/
theorem issued_solveRead_silent {read : Except Fault (Except String (RightSide α))}
    (hread : ∀ f, read ≠ .ok (.ok f)) : Outcome.issued (s.solveRead read options) = [] := by
  rcases read with cause | reason | f
  · exact issued_fail_silent _ _
  · exact issued_fail_silent _ _
  · exact absurd rfl (hread f)

/-! ## Formulas -/

section

open InitialValue.Formula

variable {c : Config Float} {formula options : Value Float}

theorem issued_solveFormula : (checkFormula formula = none →
      Outcome.issued ((Solver.mk .single c).solveFormula formula options) =
        Verdict.issued (Settings.single c options)) ∧
    (checkFormula formula ≠ none →
      Outcome.issued ((Solver.mk .single c).solveFormula formula options) = []) := by
  unfold solveFormula checkFormula Single.rightSide
  cases (Single.read formula).outcome with
  | error r =>
    refine ⟨fun h => ?_, fun _ => issued_solveRead_silent fun f h => ?_⟩ <;> cases h
  | ok e =>
    exact ⟨fun _ => issued_solveWith (Form.single_warns c options) _, fun h => absurd rfl h⟩

theorem issued_solveFormulas : (checkFormulas formula = .ok none →
      Outcome.issued ((Solver.mk .coupled c).solveFormulas formula options) =
        Verdict.issued (Settings.coupled c options)) ∧
    (checkFormulas formula ≠ .ok none →
      Outcome.issued ((Solver.mk .coupled c).solveFormulas formula options) = []) := by
  unfold solveFormulas checkFormulas
  cases Coupled.read formula with
  | error e =>
    refine ⟨fun h => ?_, fun _ => issued_solveRead_silent fun f h => ?_⟩ <;> cases h
  | ok read =>
    have hmap : ((Except.ok read : Except Foreign Coupled).map Coupled.rightSide).mapError
        Fault.foreign = .ok read.rightSide := rfl
    rw [hmap]
    unfold Coupled.rightSide
    simp only [bind, Except.bind]
    cases read.outcome with
    | error r =>
      refine ⟨fun h => ?_, fun _ => issued_solveRead_silent fun f h => ?_⟩ <;> cases h
    | ok es =>
      exact ⟨fun _ => issued_solveWith (Form.coupled_warns c options) _, fun h => absurd rfl h⟩

end

end Solver

/-! ## Both solvers -/

/-- **Warnings are issued with discipline.**  Both checks obey it for every configuration and all
    options, and a call issues exactly the warnings of its check: with any right-hand side, and with
    a formula if that is valid; with one that is not, it issues none. -/
theorem warnings_disciplined (c : Config Float) (f : RightSide Float)
    (formula options : Value Float) :
    (∀ v, Settings.single c options = .ok v → v.Disciplined c options Advice.single) ∧
    (∀ v, Settings.coupled c options = .ok v → v.Disciplined c options Advice.coupled) ∧
    Outcome.issued ((Solver.mk .single c).solveWith f options) =
      Verdict.issued (Settings.single c options) ∧
    Outcome.issued ((Solver.mk .coupled c).solveWith f options) =
      Verdict.issued (Settings.coupled c options) ∧
    (Solver.checkFormula formula = none →
      Outcome.issued ((Solver.mk .single c).solveFormula formula options) =
        Verdict.issued (Settings.single c options)) ∧
    (Solver.checkFormula formula ≠ none →
      Outcome.issued ((Solver.mk .single c).solveFormula formula options) = []) ∧
    (Solver.checkFormulas formula = .ok none →
      Outcome.issued ((Solver.mk .coupled c).solveFormulas formula options) =
        Verdict.issued (Settings.coupled c options)) ∧
    (Solver.checkFormulas formula ≠ .ok none →
      Outcome.issued ((Solver.mk .coupled c).solveFormulas formula options) = []) := by
  have hsingle := Form.single_warns c options
  have hcoupled := Form.coupled_warns c options
  obtain ⟨hvalid, hinvalid⟩ := Solver.issued_solveFormula
  obtain ⟨hvalid', hinvalid'⟩ := Solver.issued_solveFormulas
  exact ⟨fun v => hsingle.disciplined, fun v => hcoupled.disciplined,
    Solver.issued_solveWith hsingle f, Solver.issued_solveWith hcoupled f, hvalid, hinvalid,
    hvalid', hinvalid'⟩

end InitialValue
