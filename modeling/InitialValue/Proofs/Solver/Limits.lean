/-
  Looser limits.

  A configuration can refuse a problem, cut a run off and object to a step size.  It takes no part in
  what is computed, so **what succeeds under a configuration succeeds under a looser one, with the
  same solution** (`solve_relaxed`).

  1. **Comparing** — `Number.not_lt_of_le`: what does not exceed a limit does not exceed a larger
     one.  Values that are not numbers exceed no limit at all.
  2. **Checking** — `Settings.single_relaxed` and `Settings.coupled_relaxed`: accepted options stay
     accepted and have the same settings.  Only the warnings may change.
  3. **Running** — `Journey.Trail.relaxed`: a larger threshold accepts every step that was accepted.
-/
import InitialValue.Proofs.Solver.Soundness

namespace InitialValue

/-- Limits are as large or larger, and step-size advice is taken strictly only if it was before.  On
    warnings there is no condition. -/
structure Config.Relaxes {α : Type} [Scalar α] (c c' : Config α) : Prop where
  maxDomainLength : c.maxDomainLength.le c'.maxDomainLength = true
  maxInitialMagnitude : c.maxInitialMagnitude.le c'.maxInitialMagnitude = true
  divergenceThreshold : c.divergenceThreshold.le c'.divergenceThreshold = true
  strictStepSize : c'.strictStepSize.holds = true → c.strictStepSize.holds = true

/-- If the first call succeeds, the second one has the same solution and the same record of the
    call. -/
def Outcome.Kept {α σ : Type} (first second : Except Foreign (Outcome α σ)) : Prop :=
  ∀ o, first = .ok o → o.solution.success = true →
    ∃ o', second = .ok o' ∧ o'.solution = o.solution ∧ o'.run = o.run

section

variable {α : Type} [Scalar α] [Scalar.Ordered α] {c c' : Config α}

/-! ## Comparing -/

/-- **What does not exceed a limit does not exceed a larger one.** -/
theorem Number.not_lt_of_le {a b x : Number α} (hab : a.le b = true) (h : a.lt x = false) :
    b.lt x = false := by
  rw [Bool.eq_false_iff] at h ⊢
  intro hlt
  obtain ⟨p, q, hp, hq, hpq⟩ := Number.le_iff.mp hab
  obtain ⟨q', r, hq', hr, hqr⟩ := Number.lt_iff.mp hlt
  obtain rfl := Option.some.inj (hq.symm.trans hq')
  exact h (Number.lt_iff.mpr ⟨p, r, hp, hr, hpq.trans_lt hqr⟩)

/-! ## Checking -/

namespace Settings

theorem checkBounds_relaxed (h : c.Relaxes c') {t0 tEnd step : Number α}
    (hbounds : checkBounds c t0 tEnd step = .ok none) :
    checkBounds c' t0 tEnd step = .ok none := by
  obtain ⟨length, hlength, hpositive, hfits, hproper, hlimit⟩ := checkBounds_eq_none.mp hbounds
  exact checkBounds_eq_none.mpr ⟨length, hlength, hpositive, hfits, hproper,
    Number.not_lt_of_le h.maxDomainLength hlimit⟩

omit [Scalar.Ordered α] in
/-- Advice that was taken is taken. -/
theorem takeAdvice_relaxed (h : c.Relaxes c') {a : Advice α} {warnings : List String}
    (htake : takeAdvice c a = .ok warnings) : ∃ warnings', takeAdvice c' a = .ok warnings' :=
  takeAdvice_answers_iff.mpr fun hstrict =>
    takeAdvice_answers_iff.mp ⟨warnings, htake⟩ (h.strictStepSize hstrict)

theorem Passed.relaxed {σ : Type} {options : Value α} {t0 tEnd step : Parameter α}
    {judge : Number α → Number α → Number α → Except Foreign (Advice α)} {s : Settings α σ}
    {warnings : List String} (hpassed : Passed c options t0 tEnd step judge s warnings)
    (h : c.Relaxes c') : ∃ warnings', Passed c' options t0 tEnd step judge s warnings' := by
  obtain ⟨a, hjudge, htake⟩ := hpassed.advice
  obtain ⟨warnings', htake'⟩ := takeAdvice_relaxed h htake
  exact ⟨warnings', { hpassed with
    bounds := checkBounds_relaxed h hpassed.bounds
    advice := ⟨a, hjudge, htake'⟩ }⟩

/-- **Accepted options of a single equation stay accepted**, with the same settings. -/
theorem single_relaxed (h : c.Relaxes c') {options : Value α} {s : Settings α α}
    {warnings : List String} (hcheck : single c options = .ok ⟨.ok s, warnings⟩) :
    ∃ warnings', single c' options = .ok ⟨.ok s, warnings'⟩ := by
  obtain ⟨t0, y0, tEnd, step, hrecord, ht0, hy0, htEnd, hstep, hsmall, hy, hpassed⟩ :=
    single_accepts.mp hcheck
  obtain ⟨warnings', hpassed'⟩ := hpassed.relaxed h
  exact ⟨warnings', single_accepts.mpr ⟨t0, y0, tEnd, step, hrecord, ht0, hy0, htEnd, hstep,
    Number.not_lt_of_le h.maxInitialMagnitude hsmall, hy, hpassed'⟩⟩

/-- **Accepted options of a coupled system stay accepted**, with the same settings. -/
theorem coupled_relaxed (h : c.Relaxes c') {options : Value α} {s : Settings α (List α)}
    {warnings : List String} (hcheck : coupled c options = .ok ⟨.ok s, warnings⟩) :
    ∃ warnings', coupled c' options = .ok ⟨.ok s, warnings'⟩ := by
  obtain ⟨t0, tEnd, step, items, y0, hrecord, ht0, htEnd, hstep, hrow, hne, hy0, hsmall, hy,
    hpassed⟩ := coupled_accepts.mp hcheck
  have hsmall' : (y0.any fun p => c'.maxInitialMagnitude.lt p.given.magnitude) = false := by
    rw [List.any_eq_false] at hsmall ⊢
    intro p hp
    rw [Bool.not_eq_true]
    exact Number.not_lt_of_le h.maxInitialMagnitude (Bool.not_eq_true _ ▸ hsmall p hp)
  obtain ⟨warnings', hpassed'⟩ := hpassed.relaxed h
  exact ⟨warnings', coupled_accepts.mpr ⟨t0, tEnd, step, items, y0, hrecord, ht0, htEnd, hstep, hrow,
    hne, hy0, hsmall', hy, hpassed'⟩⟩

end Settings

/-! ## Running -/

section

variable {σ : Type} [State α σ]

/-- An accepted step is accepted below a larger threshold. -/
theorem Point.next_relaxed {g : Grid α} {step : Formula α σ} {threshold threshold' : Number α}
    {f : Slope α σ} {number : Nat} {p q : Point α σ} (h : threshold.le threshold' = true)
    (hnext : p.next g step threshold f number = .ok q) :
    p.next g step threshold' f number = .ok q := by
  obtain ⟨hstep, htime, hcheck, hat⟩ := Point.next_eq_ok.mp hnext
  obtain ⟨ht, hy, hsmall⟩ := Point.checkState_eq_ok.mp hcheck
  exact Point.next_eq_ok.mpr ⟨hstep, htime,
    Point.checkState_eq_ok.mpr ⟨ht, hy, Number.not_lt_of_le h hsmall⟩, hat⟩

/-- **A trail is a trail below a larger threshold.** -/
theorem Journey.Trail.relaxed {plan : Journey.Plan α σ} {threshold : Number α} {y0 : σ} {n : Nat}
    {p : Point α σ} {earlier : List (Point α σ)} (h : plan.threshold.le threshold = true)
    (htrail : Trail plan y0 n p earlier) : Trail { plan with threshold } y0 n p earlier := by
  induction htrail with
  | first hat => exact .first hat
  | step _ hopen hnext ih => exact ih.step hopen (Point.next_relaxed h hnext)

/-! ## Calls -/

namespace Solver

variable {form : Form α σ}

/-- A call keeps its success under a looser configuration that accepts its options. -/
theorem solveWith_relaxed (h : c.Relaxes c') {options : Value α}
    (haccept : ∀ settings warnings, form.check c options = .ok ⟨.ok settings, warnings⟩ →
      ∃ warnings', form.check c' options = .ok ⟨.ok settings, warnings'⟩) (f : RightSide α) :
    Outcome.Kept ((⟨form, c⟩ : Solver α σ).solveWith f options)
      ((⟨form, c'⟩ : Solver α σ).solveWith f options) := by
  intro o ho hs
  obtain ⟨settings, warnings, method, j, hcheck, hfind, htrail, hclosed, hcap, rfl⟩ :=
    solveWith_success ho hs
  obtain ⟨warnings', hcheck'⟩ := haccept settings warnings hcheck
  have hcall := solveWith_of_trail (s := ⟨form, c'⟩) (f := f) hcheck' hfind
    (htrail.relaxed h.divergenceThreshold) hclosed hcap
  exact ⟨_, hcall, rfl, rfl⟩

omit [Scalar.Ordered α] in
/-- The same for a formula: if it is not read or is rejected, no call succeeds. -/
theorem solveRead_relaxed {s s' : Solver α σ} {options : Value α}
    (h : ∀ f, Outcome.Kept (s.solveWith f options) (s'.solveWith f options))
    (read : Except Fault (Except String (RightSide α))) :
    Outcome.Kept (s.solveRead read options) (s'.solveRead read options) := by
  rcases read with cause | reason | f
  · intro o ho hs
    rw [(fail_eq_ok ho).2.1] at hs
    cases hs
  · intro o ho hs
    rw [(fail_eq_ok ho).2.1] at hs
    cases hs
  · exact h f

end Solver

end

end

/-- **Looser limits keep solutions.**  What succeeds under a configuration succeeds under a looser
    one with the same points, method and data, for single equations and coupled systems, given by a
    right-hand side or as text, and whatever the options. -/
theorem solve_relaxed {c c' : Config Float} (h : c.Relaxes c') (f : RightSide Float)
    (formula options : Value Float) :
    Outcome.Kept ((⟨.single, c⟩ : Solver Float Float).solveWith f options)
      ((⟨.single, c'⟩ : Solver Float Float).solveWith f options) ∧
    Outcome.Kept ((⟨.single, c⟩ : Solver Float Float).solveFormula formula options)
      ((⟨.single, c'⟩ : Solver Float Float).solveFormula formula options) ∧
    Outcome.Kept ((⟨.coupled, c⟩ : Solver Float (List Float)).solveWith f options)
      ((⟨.coupled, c'⟩ : Solver Float (List Float)).solveWith f options) ∧
    Outcome.Kept ((⟨.coupled, c⟩ : Solver Float (List Float)).solveFormulas formula options)
      ((⟨.coupled, c'⟩ : Solver Float (List Float)).solveFormulas formula options) := by
  have hsingle : ∀ f, Outcome.Kept ((⟨.single, c⟩ : Solver Float Float).solveWith f options)
      ((⟨.single, c'⟩ : Solver Float Float).solveWith f options) :=
    Solver.solveWith_relaxed h fun _ _ hcheck => Settings.single_relaxed h hcheck
  have hcoupled : ∀ f, Outcome.Kept
      ((⟨.coupled, c⟩ : Solver Float (List Float)).solveWith f options)
      ((⟨.coupled, c'⟩ : Solver Float (List Float)).solveWith f options) :=
    Solver.solveWith_relaxed h fun _ _ hcheck => Settings.coupled_relaxed h hcheck
  exact ⟨hsingle f, Solver.solveRead_relaxed hsingle _, hcoupled f,
    Solver.solveRead_relaxed hcoupled _⟩

/-- Domains of length one, and nothing longer. -/
def snug : Config Float := { Config.standard with maxDomainLength := .whole 1 }

/-- Large limits, and no attention paid to step-size advice. -/
def loose : Config Float :=
  ⟨.real 1e4, .real 1e9, .real 1e12, .truth false, .truth false⟩

/-- Growth over a domain that is just short enough, and the same under large limits. -/
theorem solve_relaxed_growth : snug.Relaxes loose ∧
    (∃ o o', (⟨.single, snug⟩ : Solver Float Float).solveWith growth (tenths (.real 1.0)) = .ok o ∧
      o.solution.success = true ∧
      (⟨.single, loose⟩ : Solver Float Float).solveWith growth (tenths (.real 1.0)) = .ok o' ∧
      o'.solution = o.solution) ∧
    ∃ o o', (⟨.coupled, snug⟩ : Solver Float (List Float)).solveWith growth
        (tenths (.list [.real 1.0, .real 2.0])) = .ok o ∧
      o.solution.success = true ∧
      (⟨.coupled, loose⟩ : Solver Float (List Float)).solveWith growth
        (tenths (.list [.real 1.0, .real 2.0])) = .ok o' ∧
      o'.solution = o.solution := by
  have h : snug.Relaxes loose :=
    ⟨by decide +kernel, by decide +kernel, by decide +kernel, fun hstrict => by cases hstrict⟩
  refine ⟨h, ?_, ?_⟩
  · have hrun : (((⟨.single, snug⟩ : Solver Float Float).solveWith growth
        (tenths (.real 1.0))).toOption.any (·.solution.success)) = true := by decide +kernel
    obtain ⟨o, ho, hs⟩ := exists_ok hrun
    obtain ⟨o', ho', hsolution, -⟩ := (solve_relaxed h growth .null _).1 o ho hs
    exact ⟨o, o', ho, hs, ho', hsolution⟩
  · have hrun : (((⟨.coupled, snug⟩ : Solver Float (List Float)).solveWith growth
        (tenths (.list [.real 1.0, .real 2.0]))).toOption.any (·.solution.success)) = true := by
      decide +kernel
    obtain ⟨o, ho, hs⟩ := exists_ok hrun
    obtain ⟨o', ho', hsolution, -⟩ := (solve_relaxed h growth .null _).2.2.1 o ho hs
    exact ⟨o, o', ho, hs, ho', hsolution⟩

end InitialValue
