/-
  What checks of formulas answer.

  A check reads its formula, or the formulas of its system, and answers nothing or why the reading is
  rejected.  Here is which stages have been passed where it answers nothing (`Single.Passes`,
  `Coupled.Passes`), and whether it answers at all.  A single formula may be given as anything: what
  is no text fails the first stage, and the self-test, which comes last and is reported apart, fails
  as an evaluation only (`Single.failedTest_read`).  A system may not: it is gone through before any
  stage begins, so there is an answer for collections, and a failure for everything else
  (`checks_answer`, `unlisted_unread`).
-/
import InitialValue.Proofs.Formula.Acceptance
import InitialValue.Solver.FromText

namespace InitialValue

open Formula

/-- A failure that the self-test of a formula reports: of the evaluation, or that its value is not
    finite. -/
def Fault.OfTest (cause : Fault) : Prop := cause = .nonFiniteTest ∨ ∃ c, cause = .inEvaluation c

namespace Formula

/-! ## Stages -/

/-- **The stages of a single formula**, all of them passed. -/
structure Single.Passes (v : Value Float) (n : List Char) (e : Equation) : Prop where
  normal : Equation.normalTextOf v = .ok n
  names : ∀ s ∈ namesIn n, Single.allowed.contains s = true
  compiled : Equation.compile n = .ok e
  tested : ∃ x, Single.evaluateAt e (.real 1.0) (.real 1.0) = .ok x ∧ x.isFinite = true

/-- **The stages of a system**, all of them passed. -/
structure Coupled.Passes (v : Value Float) (ns : List (List Char)) (es : List Equation) : Prop where
  listed : ∀ s, v ≠ .text s
  normal : ∃ items, Coupled.formulasIn? v = some items ∧ items ≠ [] ∧
    items.mapM Equation.normalTextOf = .ok ns
  names : ∀ s ∈ ns.flatMap namesIn, Coupled.isAllowed s = true
  compiled : ns.mapM Equation.compile = .ok es

theorem Single.test_iff (e : Equation) : Single.test e = .ok () ↔
    ∃ x, Single.evaluateAt e (.real 1.0) (.real 1.0) = .ok x ∧ x.isFinite = true := by
  constructor
  · intro h
    obtain ⟨x, hfinite, hx⟩ := Single.test_eq_ok h
    exact ⟨x, hx, hfinite⟩
  · rintro ⟨x, hx, hfinite⟩
    exact bind_eq_ok.mpr ⟨x, hx, if_pos hfinite⟩

theorem Single.accepted_iff (v : Value Float) (e : Equation) :
    (Single.read v).outcome = .ok e ↔ ∃ n, Single.Passes v n e := by
  constructor
  · intro h
    obtain ⟨hnormal, -, hnames, hcompile, htest⟩ := Single.read_accepted h
    exact ⟨_, hnormal, hnames, hcompile, (Single.test_iff e).mp htest⟩
  · rintro ⟨n, hnormal, hnames, hcompile, htest⟩
    rw [Single.read_eq hnormal hnames hcompile ((Single.test_iff e).mpr htest)]

theorem Coupled.accepted_iff (v : Value Float) (es : List Equation) :
    (∃ c, Coupled.read v = .ok c ∧ c.outcome = .ok es) ↔ ∃ ns, Coupled.Passes v ns es := by
  constructor
  · rintro ⟨c, hc, hes⟩
    obtain ⟨items, rfl⟩ := Coupled.read_accepted hc hes
    obtain ⟨hnormal, hnames, hcompile⟩ := Coupled.ofItems_accepted hes
    refine ⟨_, fun s hs => ?_, ⟨items, ?_, ?_, hnormal⟩, fun s hs => ?_, hcompile⟩
    · rw [hs] at hc
      rw [← Except.ok.inj hc] at hes
      cases hes
    · obtain ⟨items', hitems⟩ : ∃ items', Coupled.formulasIn? v = some items' := by
        cases v <;> first | exact ⟨_, rfl⟩ | cases hc
      obtain ⟨c', hc', hformulas, -⟩ := Coupled.consistent_read hitems
      obtain rfl : c' = Coupled.ofItems items := Except.ok.inj (hc'.symm.trans hc)
      rw [hitems, ← hformulas, Coupled.formulas_ofItems]
    · rintro rfl
      cases hes
    · obtain ⟨n, hn, hs⟩ := List.mem_flatMap.mp hs
      exact hnames n hn s hs
  · rintro ⟨ns, hlisted, ⟨items, hitems, hne, hnormal⟩, hnames, hcompile⟩
    have hread : Coupled.read v = .ok (Coupled.ofItems items) := by
      cases v with
      | text s => exact absurd rfl (hlisted s)
      | null => cases hitems; rfl
      | list => cases hitems; rfl
      | record => cases hitems; rfl
      | _ => cases hitems
    refine ⟨_, hread, ?_⟩
    rw [Coupled.ofItems_eq hne hnormal hnames hcompile]

/-! ## The self-test -/

theorem Single.evaluateAt_error {e : Equation} {t y : Value Float} {cause : Fault}
    (h : Single.evaluateAt e t y = .error cause) : ∃ c, cause = .inEvaluation c := by
  unfold Single.evaluateAt Except.mapError at h
  split at h
  · cases h
    exact ⟨_, rfl⟩
  · cases h

theorem Single.test_error {e : Equation} {cause : Fault} (h : Single.test e = .error cause) :
    cause.OfTest := by
  unfold Single.test at h
  cases hvalue : Single.evaluateAt e (.real 1.0) (.real 1.0) with
  | ok x =>
    rw [hvalue] at h
    change (if x.isFinite = true then _ else _) = _ at h
    split at h
    · cases h
    · cases h
      exact Or.inl rfl
  | error c =>
    rw [hvalue] at h
    cases h
    exact Or.inr (Single.evaluateAt_error hvalue)

/-- **What the self-test reports** is a failure of the test. -/
theorem Single.failedTest_read {v : Value Float} {cause : Fault}
    (h : (Single.read v).outcome = .error (.failedTest cause)) : cause.OfTest := by
  unfold Single.read at h
  split at h
  · cases h
  · unfold Single.ofNormal at h
    dsimp only at h
    split at h
    · cases h
    · split at h
      · cases h
      · split at h
        · rename_i htest
          cases h
          exact Single.test_error htest
        · cases h

end Formula

namespace Solver

/-! ## Answers -/

theorem checkFormula_eq_none (v : Value Float) :
    checkFormula v = none ↔ ∃ n e, Single.Passes v n e := by
  have haccepted := Single.accepted_iff v
  unfold checkFormula
  cases hv : (Single.read v).outcome with
  | error r =>
    constructor
    · intro h
      cases h
    · rintro ⟨n, e, h⟩
      have he := (haccepted e).mpr ⟨n, h⟩
      rw [hv] at he
      cases he
  | ok e =>
    obtain ⟨n, h⟩ := (haccepted e).mp hv
    exact ⟨fun _ => ⟨n, e, h⟩, fun _ => rfl⟩

theorem checkFormulas_eq_none (v : Value Float) :
    checkFormulas v = .ok none ↔ ∃ ns es, Coupled.Passes v ns es := by
  have haccepted := Coupled.accepted_iff v
  constructor
  · intro h
    obtain ⟨c, hc, h⟩ := bind_eq_ok.mp h
    cases hes : c.outcome with
    | error r =>
      rw [hes] at h
      cases h
    | ok es =>
      obtain ⟨ns, h⟩ := (haccepted es).mp ⟨c, hc, hes⟩
      exact ⟨ns, es, h⟩
  · rintro ⟨ns, es, h⟩
    obtain ⟨c, hc, hes⟩ := (haccepted es).mpr ⟨ns, h⟩
    unfold checkFormulas
    rw [hc]
    dsimp only [bind, Except.bind]
    rw [hes]
    rfl

/-- Only what is no collection is not read as a system. -/
theorem read_error_iff (v : Value Float) :
    Coupled.read v = .error .wrongType ↔ Coupled.formulasIn? v = none := by
  cases v <;> simp [Coupled.read, Coupled.formulasIn?]

theorem exists_read_iff (v : Value Float) :
    (∃ c, Coupled.read v = .ok c) ↔ Coupled.formulasIn? v ≠ none := by
  cases v <;> simp [Coupled.read, Coupled.formulasIn?]

theorem exists_checkFormulas_iff (v : Value Float) :
    (∃ answer, checkFormulas v = .ok answer) ↔ Coupled.formulasIn? v ≠ none := by
  rw [← exists_read_iff]
  constructor
  · rintro ⟨answer, h⟩
    obtain ⟨c, hc, -⟩ := bind_eq_ok.mp h
    exact ⟨c, hc⟩
  · rintro ⟨c, hc⟩
    unfold checkFormulas
    rw [hc]
    cases hes : c.outcome with
    | error r =>
      refine ⟨some r.message, ?_⟩
      dsimp only [bind, Except.bind]
      rw [hes]
      rfl
    | ok es =>
      refine ⟨none, ?_⟩
      dsimp only [bind, Except.bind]
      rw [hes]
      rfl

/-- What a check answers has words. -/
theorem worded_checks {v : Value Float} {message : String}
    (h : checkFormula v = some message ∨ checkFormulas v = .ok (some message)) : message ≠ "" := by
  rcases h with h | h
  · unfold checkFormula at h
    split at h
    · rename_i r _
      cases h
      exact r.message_ne_empty
    · cases h
  · obtain ⟨c, -, h⟩ := bind_eq_ok.mp h
    split at h
    · rename_i r _
      cases h
      exact r.message_ne_empty
    · cases h

end Solver

end InitialValue
