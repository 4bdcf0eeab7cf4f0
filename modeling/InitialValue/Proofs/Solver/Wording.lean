/-
  Failures have words.

  **No failure of a call is worded by an empty text** (`Solver.Fails.worded`).  Nearly all wordings
  begin with fixed words, whatever is filled in behind them.  The one exception is advice that
  refuses a step: it is reported as it comes, so one has to look at where advice comes from
  (`Advice.single_worded`, `Advice.coupled_worded`).
-/
import InitialValue.Proofs.Solver.Calls

namespace InitialValue

theorem append_ne_empty {a b : String} (h : a ≠ "") : a ++ b ≠ "" := fun hab =>
  h (String.append_eq_empty_iff.mp hab).1

/-! ## Fixed words -/

theorem Halt.message_ne_empty (halt : Halt) : halt.message ≠ "" := by
  cases halt with
  | atStep number cause =>
    exact append_ne_empty (append_ne_empty (append_ne_empty (by decide)))
  | capReached cap => exact append_ne_empty (append_ne_empty (by decide))
  | refusedRecord cause => exact append_ne_empty (by decide)

/-- The rules that are worded by an empty text: empty advice only. -/
theorem Violation.message_ne_empty {v : Violation} (h : v ≠ .advised "") : v.message ≠ "" := by
  cases v with
  | domainTooLong limit => exact append_ne_empty (append_ne_empty (by decide))
  | initialValueTooLarge limit => exact append_ne_empty (append_ne_empty (by decide))
  | initialStateTooLarge limit => exact append_ne_empty (append_ne_empty (by decide))
  | advised text => exact fun htext => h (congrArg _ htext)
  | _ => decide

theorem Formula.Rejection.message_ne_empty (r : Formula.Rejection) : r.message ≠ "" := by
  cases r with
  | notParsed cause => exact append_ne_empty (by decide)
  | unknownNames names => exact append_ne_empty (append_ne_empty (by decide))
  | unknownName name => exact append_ne_empty (append_ne_empty (by decide))
  | failedTest cause => exact append_ne_empty (by decide)
  | _ => decide

/-! ## Advice -/

section

variable {α : Type} [Scalar α]

namespace Advice

variable {length step t0 tEnd : Number α} {a : Advice α}

theorem tooLarge_worded (h : tooLarge length = .ok a) : a.warning ≠ some "" := by
  obtain ⟨s, -, h⟩ := bind_eq_ok.mp h
  cases h
  exact fun h => append_ne_empty (append_ne_empty (by decide)) (Option.some.inj h)

theorem tooSmall_worded (h : tooSmall length = .ok a) : a.warning ≠ some "" := by
  obtain ⟨s, -, h⟩ := bind_eq_ok.mp h
  cases h
  exact fun h => append_ne_empty (append_ne_empty (by decide)) (Option.some.inj h)

omit [Scalar α] in
theorem silent_worded (h : (pure silent : Except Foreign (Advice α)) = .ok a) :
    a.warning ≠ some "" := by
  cases h
  exact fun h => by cases h

/-- **Advice on a single equation** never has empty words. -/
theorem single_worded (h : single step t0 tEnd = .ok a) : a.warning ≠ some "" := by
  unfold single at h
  obtain ⟨length, -, h⟩ := bind_eq_ok.mp h
  dsimp only at h
  split at h
  · split at h
    · exact tooSmall_worded h
    · exact silent_worded h
  · obtain ⟨count, -, h⟩ := bind_eq_ok.mp h
    split at h
    · exact tooLarge_worded h
    · split at h
      · exact tooSmall_worded h
      · split at h
        · cases h
          exact fun h => append_ne_empty (append_ne_empty (by decide)) (Option.some.inj h)
        · exact silent_worded h

/-- **Advice on a coupled system** never has empty words. -/
theorem coupled_worded (h : coupled step t0 tEnd = .ok a) : a.warning ≠ some "" := by
  unfold coupled at h
  obtain ⟨length, -, h⟩ := bind_eq_ok.mp h
  dsimp only at h
  split at h
  · obtain ⟨s, -, h⟩ := bind_eq_ok.mp h
    cases h
    simp
  · split at h
    · obtain ⟨s, -, h⟩ := bind_eq_ok.mp h
      cases h
      simp
    · obtain ⟨tenth, -, h⟩ := bind_eq_ok.mp h
      split at h
      · obtain ⟨s, -, h⟩ := bind_eq_ok.mp h
        cases h
        simp
      · obtain ⟨least, -, h⟩ := bind_eq_ok.mp h
        split at h
        · obtain ⟨s, -, h⟩ := bind_eq_ok.mp h
          cases h
          simp
        · exact silent_worded h

end Advice

/-! ## Broken rules -/

namespace Settings

variable {σ : Type} {c : Config α} {options : Value α} {v : Violation} {warnings : List String}

theorem checkBounds_worded {t0 tEnd step : Number α}
    (h : checkBounds c t0 tEnd step = .ok (some v)) : v.message ≠ "" := by
  apply Violation.message_ne_empty
  rintro rfl
  obtain ⟨length, -, h⟩ := bind_eq_ok.mp h
  dsimp only at h
  split at h
  · cases h
  · split at h
    · cases h
    · split at h
      · cases h
      · split at h
        · obtain ⟨text, -, h⟩ := bind_eq_ok.mp h
          cases h
        · cases h

theorem takeAdvice_worded {a : Advice α} (ha : a.warning ≠ some "")
    (h : takeAdvice c a = .error v) : v.message ≠ "" := by
  unfold takeAdvice at h
  split at h
  · cases h
    show a.warning.getD "Invalid step size" ≠ ""
    cases hwarning : a.warning with
    | none => decide
    | some text => exact fun htext => ha (hwarning.trans (congrArg some htext))
  · split at h <;> cases h

/-- A limit whose violation is reported is worded. -/
theorem overLimit_worded {limit : Number α} {rule : String → Violation} {exceeded : Bool}
    (hrule : ∀ text, (rule text).message ≠ "") (h : overLimit limit rule exceeded = .ok (some v)) :
    v.message ≠ "" := by
  unfold overLimit at h
  split at h
  · obtain ⟨text, -, h⟩ := bind_eq_ok.mp h
    cases h
    exact hrule text
  · cases h

theorem Refuses.worded {t0 tEnd step : Parameter α}
    {tooLarge? : Except Foreign (Option Violation)}
    {judge : Number α → Number α → Number α → Except Foreign (Advice α)}
    (h : Refuses c options t0 tEnd step tooLarge? judge v)
    (hstate : ∀ {v}, tooLarge? = .ok (some v) → v.message ≠ "")
    (hjudge : ∀ {step t0 tEnd a}, judge step t0 tEnd = .ok a → a.warning ≠ some "") :
    v.message ≠ "" := by
  cases h with
  | bounds hbounds => exact checkBounds_worded hbounds
  | state hlarge => exact hstate hlarge
  | cap => decide
  | advice ha htake => exact takeAdvice_worded (hjudge ha) htake

/-- **The options of a single equation** are refused with words. -/
theorem single_worded (h : single c options = .ok ⟨.error v, warnings⟩) : v.message ≠ "" := by
  obtain ⟨rfl | ⟨_, _, _, _, hrefuses⟩, -⟩ := single_refused h
  · decide
  · refine hrefuses.worded (overLimit_worded fun text => ?_) Advice.single_worded
    exact Violation.message_ne_empty fun h => by cases h

/-- **The options of a coupled system** are refused with words. -/
theorem coupled_worded (h : coupled c options = .ok ⟨.error v, warnings⟩) : v.message ≠ "" := by
  obtain ⟨hunread | ⟨_, _, _, _, hrefuses⟩, -⟩ := coupled_refused h
  · have hwords : ∀ v ∈ [Violation.domainNotFinite, .noInitialState, .initialStateNotFinite],
        v.message ≠ "" := by decide
    exact hwords v hunread
  · refine hrefuses.worded (overLimit_worded fun text => ?_) Advice.coupled_worded
    exact Violation.message_ne_empty fun h => by cases h

end Settings

/-! ## Calls -/

/-- **A call that fails says why**, if options are refused with words. -/
theorem Solver.Fails.worded {σ : Type} [State α σ] {s : Solver α σ} {f : RightSide α}
    {options : Value α} {failure : Failure}
    (hrefused : ∀ rule warnings, s.form.check s.config options = .ok ⟨.error rule, warnings⟩ →
      rule.message ≠ "") (h : s.Fails f options failure) : failure.message ≠ "" := by
  cases h with
  | unread => exact append_ne_empty (by decide)
  | refused hcheck => exact hrefused _ _ hcheck
  | unknown => exact append_ne_empty (by decide)
  | halted => exact Halt.message_ne_empty _

end

end InitialValue
