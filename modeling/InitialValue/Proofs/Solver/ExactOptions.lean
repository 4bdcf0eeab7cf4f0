/-
  Accepted options over the exact rationals.

  1. **Bounds** — a step that is accepted is positive and no longer than the domain
     (`Settings.single_step`, `Settings.coupled_step`): over the rationals the rules compare the
     very numbers that the run computes with.
  2. **Options that differ in the end only** — `Value.AgreeBut`: when both are accepted, so do the
     settings (`Settings.single_agree`, `Settings.coupled_agree`).
-/
import InitialValue.Proofs.Number.Exact
import InitialValue.Proofs.Solver.Acceptance
import InitialValue.Solver.Solution

namespace InitialValue

/-! ## Bounds -/

/-- The real value of a parameter is what was given. -/
theorem Value.parameter?_value {v : Value ℚ} {p : Parameter ℚ}
    (h : v.parameter? = .ok (some p)) : p.real = p.given.value := by
  obtain ⟨-, hreal, -⟩ := parameter?_eq_some.mp h
  rw [Number.toReal_eq, ok_eq_ok] at hreal
  exact hreal.symm

namespace Settings

/-- **Bounds are kept**, without rounding, exactly when the step is positive and no longer than the
    domain, and the domain is not empty and no longer than its limit. -/
theorem checkBounds_worth {α : Type} [Scalar α] [Scalar.Ordered α] [Scalar.Faithful α]
    {c : Config α} {t0 tEnd step : Number α} {a b s limit : ℚ} (ht0 : t0.Worth a)
    (htEnd : tEnd.Worth b) (hstep : step.Worth s) (hlimit : c.maxDomainLength.Worth limit) :
    checkBounds c t0 tEnd step = .ok none ↔
      0 < s ∧ s ≤ |b - a| ∧ a ≠ b ∧ |b - a| ≤ limit := by
  obtain ⟨d, hd, hlength⟩ := Number.length_worth ht0 htEnd
  have hrules : step.le (.whole 0) = false ∧ d.magnitude.lt step = false ∧
      t0.same tEnd = false ∧ c.maxDomainLength.lt d.magnitude = false ↔
        0 < s ∧ s ≤ |b - a| ∧ a ≠ b ∧ |b - a| ≤ limit := by
    simp only [Bool.eq_false_iff, ne_eq, hstep.le_iff (Number.Worth.whole 0),
      hlength.lt_iff hstep, ht0.same_iff htEnd, hlimit.lt_iff hlength, Int.cast_zero, not_le, not_lt]
  rw [checkBounds_eq_none, ← hrules]
  constructor
  · rintro ⟨length, hsub, h⟩
    obtain rfl : length = d := Except.ok.inj (hsub.symm.trans hd)
    exact h
  · exact fun h => ⟨d, hd, h⟩

theorem checkBounds_step {c : Config ℚ} {t0 tEnd step : Number ℚ}
    (h : checkBounds c t0 tEnd step = .ok none) :
    0 < step.value ∧ step.value ≤ |tEnd.value - t0.value| := by
  obtain ⟨hpos, hle, -⟩ := (checkBounds_worth (Number.worth_value t0) (Number.worth_value tEnd)
    (Number.worth_value step) (Number.worth_value _)).mp h
  exact ⟨hpos, hle⟩

section

variable {σ : Type} {c : Config ℚ} {options : Value ℚ} {warnings : List String}

theorem Passed.step {t0 tEnd step : Parameter ℚ}
    {judge : Number ℚ → Number ℚ → Number ℚ → Except Foreign (Advice ℚ)} {s : Settings ℚ σ}
    (h : Passed c options t0 tEnd step judge s warnings)
    (ht0 : (options.option "t0").parameter? = .ok (some t0))
    (htEnd : (options.option "t_end").parameter? = .ok (some tEnd))
    (hstep : (options.option "step_size").parameter? = .ok (some step)) :
    0 < s.stepSize ∧ s.stepSize ≤ |s.tEnd - s.t0| := by
  rw [h.stepSize, h.tEnd, h.t0, Value.parameter?_value ht0, Value.parameter?_value htEnd,
    Value.parameter?_value hstep]
  exact checkBounds_step h.bounds

/-- **An accepted step** of a single equation is positive and no longer than the domain. -/
theorem single_step {s : Settings ℚ ℚ} (h : single c options = .ok ⟨.ok s, warnings⟩) :
    0 < s.stepSize ∧ s.stepSize ≤ |s.tEnd - s.t0| := by
  obtain ⟨_, _, _, _, -, ht0, -, htEnd, hstep, -, -, hpassed⟩ := single_accepts.mp h
  exact hpassed.step ht0 htEnd hstep

/-- **An accepted step** of a coupled system is positive and no longer than the domain. -/
theorem coupled_step {s : Settings ℚ (List ℚ)} (h : coupled c options = .ok ⟨.ok s, warnings⟩) :
    0 < s.stepSize ∧ s.stepSize ≤ |s.tEnd - s.t0| := by
  obtain ⟨_, _, _, _, _, -, ht0, htEnd, hstep, -, -, -, -, -, hpassed⟩ := coupled_accepts.mp h
  exact hpassed.step ht0 htEnd hstep

end

end Settings

/-! ## Options that differ in the end only -/

/-- Records that agree in all fields but one. -/
def Value.AgreeBut {α : Type} (name : String) (a b : Value α) : Prop :=
  ∀ other, other ≠ name → a.field? other = b.field? other

/-- Settings that agree in all but the end of the domain. -/
structure Settings.AgreeButEnd {α σ : Type} (a b : Settings α σ) : Prop where
  t0 : a.t0 = b.t0
  stepSize : a.stepSize = b.stepSize
  y0 : a.y0 = b.y0
  maxIterations : a.maxIterations = b.maxIterations

section

variable {α : Type} {near far : Value α}

theorem Value.AgreeBut.option {name other : String} (h : near.AgreeBut name far)
    (hother : other ≠ name) : near.option other = far.option other := by
  unfold Value.option
  rw [h other hother]

theorem Value.AgreeBut.requestedMethod_eq {name : String} (h : near.AgreeBut name far)
    (hname : "method" ≠ name) :
    Solution.requestedMethod near = Solution.requestedMethod far := by
  unfold Solution.requestedMethod
  rw [h "method" hname]

theorem Value.AgreeBut.requestedMethod (h : near.AgreeBut "t_end" far) :
    Solution.requestedMethod near = Solution.requestedMethod far :=
  h.requestedMethod_eq (by decide)

theorem Value.AgreeBut.iterationCap? (h : near.AgreeBut "t_end" far) :
    Settings.iterationCap? near = Settings.iterationCap? far := by
  unfold Settings.iterationCap?
  rw [h "max_iterations" (by decide)]

namespace Settings

variable [Scalar α] {c : Config α} {w w' : List String}

theorem Passed.agree {σ : Type} {t0 tEnd tEnd' step : Parameter α}
    {judge : Number α → Number α → Number α → Except Foreign (Advice α)} {a b : Settings α σ}
    (h : near.AgreeBut "t_end" far) (ha : Passed c near t0 tEnd step judge a w)
    (hb : Passed c far t0 tEnd' step judge b w') (hy : a.y0 = b.y0) : a.AgreeButEnd b := by
  have hcap := ha.cap
  rw [h.iterationCap?, hb.cap] at hcap
  exact ⟨ha.t0.trans hb.t0.symm, ha.stepSize.trans hb.stepSize.symm, hy,
    (Option.some.inj hcap).symm⟩

/-- Accepted options of a single equation that differ in the end only have such settings. -/
theorem single_agree (h : near.AgreeBut "t_end" far) {a b : Settings α α}
    (ha : single c near = .ok ⟨.ok a, w⟩) (hb : single c far = .ok ⟨.ok b, w'⟩) :
    a.AgreeButEnd b := by
  obtain ⟨t0, y0, _, step, -, ht0, hy0, -, hstep, -, hy, hpassed⟩ := single_accepts.mp ha
  obtain ⟨t0', y0', _, step', -, ht0', hy0', -, hstep', -, hy', hpassed'⟩ := single_accepts.mp hb
  rw [h.option (by decide)] at ht0 hy0 hstep
  cases ht0.symm.trans ht0'
  cases hy0.symm.trans hy0'
  cases hstep.symm.trans hstep'
  exact hpassed.agree h hpassed' (hy.trans hy'.symm)

/-- Accepted options of a coupled system that differ in the end only have such settings. -/
theorem coupled_agree (h : near.AgreeBut "t_end" far) {a b : Settings α (List α)}
    (ha : coupled c near = .ok ⟨.ok a, w⟩) (hb : coupled c far = .ok ⟨.ok b, w'⟩) :
    a.AgreeButEnd b := by
  obtain ⟨t0, _, step, items, y0, -, ht0, -, hstep, hrow, -, hy0, -, hy, hpassed⟩ :=
    coupled_accepts.mp ha
  obtain ⟨t0', _, step', items', y0', -, ht0', -, hstep', hrow', -, hy0', -, hy', hpassed'⟩ :=
    coupled_accepts.mp hb
  rw [h.option (by decide)] at ht0 hstep hrow
  cases ht0.symm.trans ht0'
  cases hstep.symm.trans hstep'
  cases hrow.symm.trans hrow'
  cases hy0.symm.trans hy0'
  exact hpassed.agree h hpassed' (hy.trans hy'.symm)

end Settings

end

/-! ## Sample options -/

/-- A domain between whole numbers, in coarse steps of three tenths. -/
def Value.coarse (t0 tEnd : ℤ) (y0 : Value ℚ) (key : MethodKey) : Value ℚ := .record [
  ("t0", .whole t0), ("y0", y0), ("t_end", .whole tEnd), ("step_size", .real (3 / 10)),
  ("method", .key key)]

theorem Value.coarse_agree (t0 m n : ℤ) (y0 : Value ℚ) (key : MethodKey) :
    (coarse t0 m y0 key).AgreeBut "t_end" (coarse t0 n y0 key) := by
  intro other hother
  have hend : ("t_end" == other) = false := beq_false_of_ne hother.symm
  unfold coarse field?
  simp only [List.reverse_cons, List.reverse_nil, List.nil_append, List.cons_append,
    List.find?_cons, hend]

end InitialValue
