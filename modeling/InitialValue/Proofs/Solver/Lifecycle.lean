/-
  The record of a call says how the call ended.

  Four functions move the record along, and three more may end it early, so that record and solution
  agree is a matter of every way out.  It is said once for all of them: a solution determines the
  calls that were made on its record (`Solution.calls`), and carrying out those calls on a fresh
  record, none of them refused, gives the record that came with the solution.

  1. **Histories** — `Run.follow` carries out calls until one is refused.  The calls before a failure
     lead to the record with which the call fails (`Failure.follow_calls`), which is not final and has
     counted the steps taken.
  2. **Ways out** — `Solver.Fails.genuine`: no stage fails because a transition was refused, so every
     failure is recorded (`Solver.recorded_of_fail`).
  3. **Calls** — `Solver.recorded` for right-hand sides, `Solver.recorded_read` for formulas, and
     `solve_recorded` for both solvers.
-/
import InitialValue.Proofs.Solver.IterationCap

namespace InitialValue

/-! ## Histories -/

namespace Run

/-- Carries out calls one after the other, until one is refused. -/
def follow (r : Run) (calls : List Call) : Except Fault Run := calls.foldlM call r

theorem follow_append (r : Run) (calls calls' : List Call) :
    r.follow (calls ++ calls') = r.follow calls >>= fun r' => r'.follow calls' :=
  List.foldlM_append

theorem follow_single (r : Run) (c : Call) : r.follow [c] = r.call c := by
  unfold follow
  rw [List.foldlM_cons]
  cases r.call c <;> rfl

/-- Every step of an integration is counted. -/
theorem follow_recordStep (n : ℕ) :
    (integrating 0).follow (List.replicate n .recordStep) = .ok (integrating n) := by
  induction n with
  | zero => rfl
  | succ n ih =>
    rw [List.replicate_succ', follow_append, ih]
    exact (follow_single (integrating n) .recordStep).trans (recordStep_integrating n)

/-- The calls of an integration, up to the step that is under way. -/
def integrationCalls (n : ℕ) : List Call :=
  .validated :: .start :: List.replicate n .recordStep

theorem follow_integrationCalls (n : ℕ) :
    fresh.follow (integrationCalls n) = .ok (integrating n) :=
  follow_recordStep n

/-- A record that is not final can fail. -/
theorem fail_eq_ok {r : Run} (h : r.isFinal = false) (error : String) :
    r.fail error = .ok ⟨.failed, r.steps, some error⟩ := by
  obtain ⟨phase, steps, error'⟩ := r
  cases phase <;> first | rfl | cases h

theorem attempt_fail {r : Run} (h : r.isFinal = false) (error : String) :
    r.attempt (.fail error) = ⟨.failed, r.steps, some error⟩ := by
  show ((r.fail error).toOption.getD r) = _
  rw [fail_eq_ok h]
  rfl

end Run

namespace Failure

/-- The number of steps that were accepted before a failure: reading, checking and looking up the
    method come before all steps, and so does the initial point. -/
def stepsTaken : Failure → ℕ
  | .halted (.atStep k _) => k - 1
  | .halted (.capReached cap) => cap
  | _ => 0

/-- The calls that were made on a record before a failure. -/
def calls : Failure → List Run.Call
  | .unknownMethod _ => [.validated]
  | .halted (.atStep k _) => Run.integrationCalls (k - 1)
  | .halted (.capReached cap) => Run.integrationCalls cap
  | _ => []

/-- A failure that stands for a refused transition of the record. -/
def IsRefusal : Failure → Prop
  | .halted (.refusedRecord _) => True
  | .computation (.illegalTransition _ _) => True
  | .solver (.illegalTransition _ _) => True
  | _ => False

/-- **The calls before a failure** lead to the record with which it happens. -/
theorem follow_calls (failure : Failure) : Run.fresh.follow failure.calls = .ok failure.record := by
  rcases failure with reason | rule | requested | (⟨k, cause⟩ | cap | cause) | cause | cause
  case halted.atStep => exact Run.follow_integrationCalls (k - 1)
  case halted.capReached => exact Run.follow_integrationCalls cap
  all_goals rfl

theorem isFinal_record (failure : Failure) : failure.record.isFinal = false := by
  rcases failure with _ | _ | _ | (_ | _ | _) | _ | _ <;> rfl

theorem steps_record (failure : Failure) : failure.record.steps = failure.stepsTaken := by
  rcases failure with _ | _ | _ | (_ | _ | _) | _ | _ <;> rfl

end Failure

/-- The calls on the record of a call with this solution. -/
def Solution.calls {α σ : Type} (s : Solution α σ) : List Run.Call :=
  match s.failure with
  | none => Run.integrationCalls (s.totalPoints - 1) ++ [.converge]
  | some failure => failure.calls ++ [.fail failure.message]

/-- **The record of a call and its solution agree.** -/
structure Outcome.Recorded {α σ : Type} (o : Outcome α σ) : Prop where
  final : o.run.isFinal = true
  converged_iff : o.run.phase = .converged ↔ o.solution.success = true
  failed_iff : o.run.phase = .failed ↔ o.solution.success = false
  /-- Every point but the first was recorded as a step. -/
  success : o.solution.success = true →
    o.solution.totalPoints = o.run.steps + 1 ∧ o.run.error = none
  /-- The failure is the error, and the steps are those before it. -/
  failure : o.solution.success = false → ∃ failure, o.solution.failure = some failure ∧
    o.run.error = some failure.message ∧ o.run.steps = failure.stepsTaken ∧ ¬ failure.IsRefusal
  /-- All calls on the record were carried out. -/
  history : Run.fresh.follow o.solution.calls = .ok o.run

/-! ## Ways out -/

namespace Solver

variable {α σ : Type} [Scalar α] {s : Solver α σ} {options : Value α} {failure : Failure}
  {o : Outcome α σ}

/-- **A failure is recorded** on the record with which it happens. -/
theorem recorded_of_fail {warnings : List String} (hgenuine : ¬ failure.IsRefusal)
    (h : s.fail options failure.record warnings failure = .ok o) : o.Recorded := by
  have hopen := failure.isFinal_record
  unfold fail at h
  rw [hopen, if_neg Bool.false_ne_true, Run.attempt_fail hopen] at h
  obtain ⟨width, -, h⟩ := bind_eq_ok.mp h
  cases h
  constructor
  case final => rfl
  case converged_iff => exact iff_of_false (by rintro ⟨⟩) Bool.false_ne_true
  case failed_iff => exact iff_of_true rfl rfl
  case success => exact fun h => absurd h Bool.false_ne_true
  case failure => exact fun _ => ⟨failure, rfl, rfl, failure.steps_record, hgenuine⟩
  case history =>
    show Run.fresh.follow (failure.calls ++ [.fail failure.message]) = _
    rw [Run.follow_append, failure.follow_calls]
    exact (Run.follow_single _ _).trans (Run.fail_eq_ok hopen _)

variable [State α σ] {f : RightSide α}

/-- **No transition is refused**: no stage fails for that. -/
theorem Fails.genuine (h : s.Fails f options failure) : ¬ failure.IsRefusal := by
  cases h with
  | @halted settings _ method _ _ hcheck hfind hstart =>
    have hends := Journey.start_ends (s.plan f method settings) settings.y0
    rw [hstart] at hends
    cases hends <;> exact not_false
  | _ => exact not_false

/-! ## Calls -/

/-- **The record of a call agrees with its solution.** -/
theorem recorded (h : s.solveWith f options = .ok o) : o.Recorded := by
  cases hs : o.solution.success with
  | true =>
    obtain ⟨settings, warnings, method, j, -, -, htrail, -, -, rfl⟩ := solveWith_success h hs
    have hlen : j.points.length = j.steps + 1 := htrail.count_points
    constructor
    case final => rfl
    case converged_iff => exact iff_of_true rfl rfl
    case failed_iff => exact iff_of_false (by rintro ⟨⟩) (by rintro ⟨⟩)
    case success => exact fun _ => ⟨hlen, rfl⟩
    case failure => exact fun h => absurd h (by rintro ⟨⟩)
    case history =>
      show Run.fresh.follow (Run.integrationCalls (j.points.length - 1) ++ [.converge]) = _
      rw [hlen, Nat.add_sub_cancel, Run.follow_append, Run.follow_integrationCalls]
      rfl
  | false =>
    rcases fails_or_arrives s f options with ⟨failure, hstage⟩ | ⟨points, harrives⟩
    · obtain ⟨warnings, heq⟩ := hstage.solveWith_eq
      exact recorded_of_fail hstage.genuine (heq.symm.trans h)
    · obtain ⟨o', ho', hs', -⟩ := harrives.succeeds
      cases h.symm.trans ho'
      rw [hs] at hs'
      cases hs'

/-- The record of a call on a formula agrees with its solution, if reading the formula does not
    itself fail with a refused transition. -/
theorem recorded_read {read : Except Fault (Except String (RightSide α))}
    (hread : ∀ cause, read = .error cause → ¬ (Failure.solver cause).IsRefusal)
    (h : s.solveRead read options = .ok o) : o.Recorded := by
  unfold solveRead at h
  split at h
  · rename_i cause
    exact recorded_of_fail (hread cause rfl) h
  · rename_i reason
    have hgenuine : ¬ (Failure.formula reason).IsRefusal := not_false
    exact recorded_of_fail hgenuine h
  · exact recorded h

end Solver

/-- **Records and solutions agree**, for both solvers, whatever the configuration, the options, and
    the right-hand side or formula: every call that is answered has a record that ended where the
    solution says, after calls none of which was refused. -/
theorem solve_recorded (c : Config Float) (options : Value Float) :
    (∀ o, (∃ f, (⟨.single, c⟩ : Solver Float Float).solveWith f options = .ok o) ∨
        (∃ formula, (⟨.single, c⟩ : Solver Float Float).solveFormula formula options = .ok o) →
      o.Recorded) ∧
    (∀ o, (∃ f, (⟨.coupled, c⟩ : Solver Float (List Float)).solveWith f options = .ok o) ∨
        (∃ formulas,
          (⟨.coupled, c⟩ : Solver Float (List Float)).solveFormulas formulas options = .ok o) →
      o.Recorded) := by
  constructor
  · rintro o (⟨f, ho⟩ | ⟨formula, ho⟩)
    · exact Solver.recorded ho
    · refine Solver.recorded_read (fun cause h => ?_) ho
      cases h
  · rintro o (⟨f, ho⟩ | ⟨formulas, ho⟩)
    · exact Solver.recorded ho
    · refine Solver.recorded_read (fun cause h => ?_) ho
      -- a collection is the only thing that can be wrong with the formulas of a system
      cases hread : Formula.Coupled.read formulas with
      | error e =>
        rw [hread] at h
        cases h
        exact not_false
      | ok system =>
        rw [hread] at h
        cases h

/-- Ten tenths from one converge after ten steps, and from a pair a cap of four is exhausted after
    four. -/
theorem solve_recorded_tenths :
    (∃ o, (⟨.single, .standard⟩ : Solver Float Float).solveWith growth
        (cappedTenths 10 (.real 1.0)) = .ok o ∧
      o.solution.totalPoints = 11 ∧ o.run = ⟨.converged, 10, none⟩ ∧ o.Recorded) ∧
    (∃ o, (⟨.coupled, .standard⟩ : Solver Float (List Float)).solveFormulas
        (.list [.text "y2", .text "-y1"]) (cappedTenths 4 (.list [.real 1.0, .real 2.0])) = .ok o ∧
      o.solution.failure = some (.halted (.capReached 4)) ∧
      o.run = ⟨.failed, 4, some "Maximum iterations (4) reached without convergence"⟩ ∧
      o.Recorded) := by
  constructor
  · obtain ⟨o, ho, hseen⟩ := exists_ok (x := (⟨.single, .standard⟩ : Solver Float Float).solveWith
        growth (cappedTenths 10 (.real 1.0)))
      (p := fun o => o.solution.totalPoints == 11 && o.run == ⟨.converged, 10, none⟩)
      (by decide +kernel)
    simp only [Bool.and_eq_true, beq_iff_eq] at hseen
    exact ⟨o, ho, hseen.1, hseen.2, (solve_recorded .standard _).1 o (Or.inl ⟨growth, ho⟩)⟩
  · obtain ⟨o, ho, hseen⟩ := exists_ok (x := (⟨.coupled, .standard⟩ :
        Solver Float (List Float)).solveFormulas (.list [.text "y2", .text "-y1"])
        (cappedTenths 4 (.list [.real 1.0, .real 2.0])))
      (p := fun o => o.solution.failure == some (.halted (.capReached 4)) && o.run ==
        ⟨.failed, 4, some "Maximum iterations (4) reached without convergence"⟩)
      (by decide +kernel)
    simp only [Bool.and_eq_true, beq_iff_eq] at hseen
    exact ⟨o, ho, hseen.1, hseen.2, (solve_recorded .standard _).2 o (Or.inr ⟨_, ho⟩)⟩

end InitialValue
