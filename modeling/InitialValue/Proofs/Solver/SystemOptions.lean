/-
  The options of a system and of its equations.

  They differ in the initial state only (`Value.withState`): a list for the system, one of its items
  for each equation.  The two are judged by different rules of step size, but when such advice does
  not refuse, the system is accepted exactly when all equations are, with settings that are made of
  theirs (`Settings.Splits`).

  1. **Answers** — `Settings.judges_answer`: where the bounds are kept, both judges of step sizes
     answer.
  2. **Acceptance** — `Settings.coupled_splits`, `Settings.coupled_joins`.
-/
import InitialValue.Proofs.RightSide
import InitialValue.Proofs.Solver.Acceptance
import InitialValue.Proofs.StepSize.Advice

namespace InitialValue

/-! ## Options -/

namespace Value

variable {α : Type} (fields : List (String × Value α)) (y0 : Value α)

/-- Options with an initial state. -/
def withState : Value α := .record (fields ++ [("y0", y0)])

theorem field?_withState {name : String} (h : name ≠ "y0") :
    (withState fields y0).field? name = (Value.record fields).field? name :=
  field?_withField_of_ne fields "y0" y0 h

theorem option_withState_y0 : (withState fields y0).option "y0" = y0 :=
  option_withField fields "y0" y0

theorem option_withState {name : String} (h : name ≠ "y0") :
    (withState fields y0).option name = (Value.record fields).option name :=
  option_withField_of_ne fields "y0" y0 h

end Value

/-- Ends of a domain that are whole numbers are no further apart than a machine real can tell. -/
def EndsFit (fields : List (String × Value Float)) : Prop :=
  ∀ a b : ℤ, (Value.record fields).option "t0" = .whole a →
    (Value.record fields).option "t_end" = .whole b → (Number.whole (b - a)).Fits

namespace Settings

/-- The settings of a system are made of those of its equations. -/
structure Splits {n : ℕ} (s : Settings Float (List Float)) (ss : Fin n → Settings Float Float) :
    Prop where
  t0 : ∀ i, (ss i).t0 = s.t0
  tEnd : ∀ i, (ss i).tEnd = s.tEnd
  stepSize : ∀ i, (ss i).stepSize = s.stepSize
  maxIterations : ∀ i, (ss i).maxIterations = s.maxIterations
  y0 : s.y0 = List.ofFn fun i => (ss i).y0

section

variable {fields : List (String × Value Float)} {t0 tEnd step : Parameter Float}

/-- The length of a domain of parameters is in range. -/
theorem length_fits (hfit : EndsFit fields)
    (ht0 : ((Value.record fields).option "t0").parameter? = .ok (some t0))
    (htEnd : ((Value.record fields).option "t_end").parameter? = .ok (some tEnd))
    {length : Number Float} (hlength : tEnd.given.sub t0.given = .ok length) : length.Fits := by
  obtain ⟨hnumber0, -, -⟩ := Value.parameter?_eq_some.mp ht0
  obtain ⟨hnumberEnd, -, -⟩ := Value.parameter?_eq_some.mp htEnd
  have hwhole : ∀ {v : Value Float} {a : ℤ}, v.number? = some (.whole a) → v = .whole a := by
    intro v a h
    cases v <;> cases h
    rfl
  have hreal : ∀ {r : Except Foreign (Number Float)}, r = .ok length →
      (∃ x y : Except Foreign Float, r = (do return .real ((← x) - (← y)))) → length.Fits := by
    rintro r hr ⟨x, y, rfl⟩
    obtain ⟨a, -, hr⟩ := bind_eq_ok.mp hr
    obtain ⟨b, -, hr⟩ := bind_eq_ok.mp hr
    rw [← pure_eq_ok.mp hr]
    exact Number.fits_real _
  cases h0 : t0.given with
  | real x =>
    rw [h0] at hlength
    cases hEnd : tEnd.given <;> rw [hEnd] at hlength <;> exact hreal hlength ⟨_, _, rfl⟩
  | whole a =>
    rw [h0] at hlength hnumber0
    cases hEnd : tEnd.given with
    | real y =>
      rw [hEnd] at hlength
      exact hreal hlength ⟨_, _, rfl⟩
    | whole b =>
      rw [hEnd] at hlength hnumberEnd
      cases hlength
      exact hfit a b (hwhole hnumber0) (hwhole hnumberEnd)

/-- A parameter that is not below zero or zero is positive. -/
theorem step_positive {v : Value Float} (hstep : v.parameter? = .ok (some step))
    (hle : step.given.le (.whole 0) = false) : (Number.whole 0).lt step.given = true := by
  obtain ⟨hnumber, hreal, hfin⟩ := Value.parameter?_eq_some.mp hstep
  obtain ⟨q, hq⟩ : ∃ q, step.given.level = some q := by
    cases hgiven : step.given with
    | whole n => exact ⟨_, rfl⟩
    | real x =>
      rw [hgiven] at hreal
      cases hreal
      obtain ⟨q, hq⟩ := Scalar.Ordered.level_of_isFinite _ hfin
      exact ⟨_, hq⟩
  refine Number.lt_iff.mpr ⟨_, q, rfl, hq, ?_⟩
  by_contra hnot
  have htrue : step.given.le (.whole 0) = true :=
    Number.le_iff.mpr ⟨q, _, hq, rfl, not_lt.mp hnot⟩
  rw [hle] at htrue
  cases htrue

/-- **Both judges answer** where the bounds are kept. -/
theorem judges_answer (hfit : EndsFit fields)
    (ht0 : ((Value.record fields).option "t0").parameter? = .ok (some t0))
    (htEnd : ((Value.record fields).option "t_end").parameter? = .ok (some tEnd))
    (hstep : ((Value.record fields).option "step_size").parameter? = .ok (some step))
    {c : Config Float} (hbounds : checkBounds c t0.given tEnd.given step.given = .ok none) :
    (∃ a, Advice.single step.given t0.given tEnd.given = .ok a) ∧
      ∃ a, Advice.coupled step.given t0.given tEnd.given = .ok a := by
  obtain ⟨length, hlength, hle, -⟩ := checkBounds_passes hbounds
  have hfits := length_fits hfit ht0 htEnd hlength
  have hreal := (Value.parameter?_eq_some.mp hstep).2.1
  exact ⟨Advice.single_answers hlength hfits ⟨_, hreal⟩ (step_positive hstep hle),
    Advice.coupled_answers hlength hfits⟩

end

/-- Advice that is no more than advice is taken. -/
theorem takeAdvice_lenient {c : Config Float} (hlenient : c.strictStepSize.holds = false)
    (a : Advice Float) : ∃ warnings, takeAdvice c a = .ok warnings :=
  takeAdvice_answers_iff.mpr fun hstrict => by
    rw [hlenient] at hstrict
    cases hstrict

/-- Rules that are kept for one judge are kept for any other that answers. -/
theorem Passed.rejudged {σ τ : Type} {c : Config Float} (hlenient : c.strictStepSize.holds = false)
    {options options' : Value Float} {t0 tEnd step : Parameter Float}
    {judge judge' : Number Float → Number Float → Number Float → Except Foreign (Advice Float)}
    {s : Settings Float σ} {warnings : List String}
    (h : Passed c options t0 tEnd step judge s warnings)
    (hcap : iterationCap? options' = iterationCap? options)
    (hjudge : ∃ a, judge' step.given t0.given tEnd.given = .ok a) (y0 : τ) :
    ∃ warnings', Passed c options' t0 tEnd step judge'
      ⟨s.t0, s.tEnd, s.stepSize, y0, s.maxIterations⟩ warnings' := by
  obtain ⟨a, ha⟩ := hjudge
  obtain ⟨warnings', hwarnings⟩ := takeAdvice_lenient hlenient a
  exact ⟨warnings', h.bounds, hcap.trans h.cap, ⟨a, ha, hwarnings⟩, h.t0, h.tEnd, h.stepSize⟩

section

variable {n : ℕ} {c : Config Float} {fields : List (String × Value Float)}
  {v : Fin n → Value Float}

theorem iterationCap?_withState (y0 : Value Float) :
    iterationCap? (.withState fields y0) = iterationCap? (.record fields) := by
  unfold iterationCap?
  rw [Value.field?_withState fields y0 (by decide)]

theorem any_ofFn_eq_false {β : Type} {p : β → Bool} {w : Fin n → β} :
    (List.ofFn w).any p = false ↔ ∀ i, p (w i) = false := by
  simp [List.any_eq_false]

/-- **From a system to its equations**: accepted options of the system are accepted for all
    equations. -/
theorem coupled_splits (hlenient : c.strictStepSize.holds = false) (hfit : EndsFit fields)
    {s : Settings Float (List Float)} {warnings : List String}
    (h : coupled c (.withState fields (.list (List.ofFn v))) = .ok ⟨.ok s, warnings⟩) :
    ∃ (ss : Fin n → Settings Float Float) (ws : Fin n → List String), s.Splits ss ∧
      ∀ i, single c (.withState fields (v i)) = .ok ⟨.ok (ss i), ws i⟩ := by
  obtain ⟨t0, tEnd, step, items, y0, -, ht0, htEnd, hstep, hrow, -, hy0, hsmall, hy, hpassed⟩ :=
    coupled_accepts.mp h
  obtain ⟨hitems, -⟩ := row?_eq_some.mp hrow
  rw [Value.option_withState_y0] at hitems
  cases hitems
  rw [Value.parameters?_eq_some, forall₂_ofFn_iff] at hy0
  obtain ⟨ps, rfl, hps⟩ := hy0
  rw [any_ofFn_eq_false] at hsmall
  rw [Value.option_withState _ _ (by decide)] at ht0 htEnd hstep
  have hjudge := (judges_answer hfit ht0 htEnd hstep hpassed.bounds).1
  have hpart : ∀ i, ∃ ws, Passed c (.withState fields (v i)) t0 tEnd step Advice.single
      ⟨s.t0, s.tEnd, s.stepSize, (ps i).real, s.maxIterations⟩ ws := fun i =>
    hpassed.rejudged hlenient (by rw [iterationCap?_withState, iterationCap?_withState]) hjudge _
  choose ws hws using hpart
  refine ⟨fun i => ⟨s.t0, s.tEnd, s.stepSize, (ps i).real, s.maxIterations⟩, ws, ?_, fun i => ?_⟩
  · refine ⟨fun _ => rfl, fun _ => rfl, fun _ => rfl, fun _ => rfl, ?_⟩
    rw [hy, List.map_ofFn]
    rfl
  · refine single_accepts.mpr ⟨t0, ps i, tEnd, step, rfl, ?_, ?_, ?_, ?_, hsmall i, rfl, hws i⟩
    · rwa [Value.option_withState _ _ (by decide)]
    · rw [Value.option_withState_y0]
      exact hps i
    · rwa [Value.option_withState _ _ (by decide)]
    · rwa [Value.option_withState _ _ (by decide)]

/-- Equations with accepted options read the same ends and the same step. -/
theorem singles_share [NeZero n] {ss : Fin n → Settings Float Float} {ws : Fin n → List String}
    (h : ∀ i, single c (.withState fields (v i)) = .ok ⟨.ok (ss i), ws i⟩) :
    ∃ (t0 tEnd step : Parameter Float) (ps : Fin n → Parameter Float),
      ((Value.record fields).option "t0").parameter? = .ok (some t0) ∧
      ((Value.record fields).option "t_end").parameter? = .ok (some tEnd) ∧
      ((Value.record fields).option "step_size").parameter? = .ok (some step) ∧
      ∀ i, (v i).parameter? = .ok (some (ps i)) ∧
        c.maxInitialMagnitude.lt (ps i).given.magnitude = false ∧ (ss i).y0 = (ps i).real ∧
        Passed c (.withState fields (v i)) t0 tEnd step Advice.single (ss i) (ws i) := by
  have hparts : ∀ i, ∃ t0 y0 tEnd step : Parameter Float,
      ((Value.record fields).option "t0").parameter? = .ok (some t0) ∧
      (v i).parameter? = .ok (some y0) ∧
      ((Value.record fields).option "t_end").parameter? = .ok (some tEnd) ∧
      ((Value.record fields).option "step_size").parameter? = .ok (some step) ∧
      c.maxInitialMagnitude.lt y0.given.magnitude = false ∧ (ss i).y0 = y0.real ∧
      Passed c (.withState fields (v i)) t0 tEnd step Advice.single (ss i) (ws i) := by
    intro i
    obtain ⟨t0, y0, tEnd, step, -, ht0, hy0, htEnd, hstep, hrest⟩ := single_accepts.mp (h i)
    rw [Value.option_withState_y0] at hy0
    rw [Value.option_withState _ _ (by decide)] at ht0 htEnd hstep
    exact ⟨t0, y0, tEnd, step, ht0, hy0, htEnd, hstep, hrest⟩
  obtain ⟨t0, -, tEnd, step, ht0, -, htEnd, hstep, -⟩ := hparts 0
  have hshared : ∀ i, ∃ y0 : Parameter Float, (v i).parameter? = .ok (some y0) ∧
      c.maxInitialMagnitude.lt y0.given.magnitude = false ∧ (ss i).y0 = y0.real ∧
      Passed c (.withState fields (v i)) t0 tEnd step Advice.single (ss i) (ws i) := by
    intro i
    obtain ⟨t0', y0, tEnd', step', ht0', hy0, htEnd', hstep', hrest⟩ := hparts i
    cases ht0.symm.trans ht0'
    cases htEnd.symm.trans htEnd'
    cases hstep.symm.trans hstep'
    exact ⟨y0, hy0, hrest⟩
  choose ps hps using hshared
  exact ⟨t0, tEnd, step, ps, ht0, htEnd, hstep, hps⟩

/-- Numbers make a row. -/
theorem row?_ofFn {ps : Fin n → Parameter Float} (h : ∀ i, (v i).parameter? = .ok (some (ps i))) :
    row? (.list (List.ofFn v)) = .ok (some (List.ofFn v)) := by
  have hshape : (Value.list (List.ofFn v)).HasShape [(List.ofFn v).length] := by
    refine Value.hasShape_row fun w hw xs hxs => ?_
    obtain ⟨i, rfl⟩ := (List.mem_ofFn' _ _).mp hw
    have hnumber := (Value.parameter?_eq_some.mp (h i)).1
    rw [hxs] at hnumber
    cases hnumber
  refine row?_eq_some.mpr ⟨rfl, (List.ofFn v).length, ?_⟩
  unfold Value.rowLength?
  rw [(Value.shape_eq_ok _).mpr hshape]
  rfl

/-- **From its equations to a system**: options that are accepted for all equations are accepted
    for the system. -/
theorem coupled_joins [NeZero n] (hlenient : c.strictStepSize.holds = false) (hfit : EndsFit fields)
    {ss : Fin n → Settings Float Float} {ws : Fin n → List String}
    (h : ∀ i, single c (.withState fields (v i)) = .ok ⟨.ok (ss i), ws i⟩) :
    ∃ (s : Settings Float (List Float)) (warnings : List String), s.Splits ss ∧
      coupled c (.withState fields (.list (List.ofFn v))) = .ok ⟨.ok s, warnings⟩ := by
  obtain ⟨t0, tEnd, step, ps, ht0, htEnd, hstep, hparts⟩ := singles_share h
  choose hps hsmall hy hpasses using hparts
  -- the rules of the first equation, judged as those of a system
  have hpassed := hpasses 0
  have hjudge := (judges_answer hfit ht0 htEnd hstep hpassed.bounds).2
  have hcap : iterationCap? (.withState fields (.list (List.ofFn v))) =
      iterationCap? (.withState fields (v 0)) := by
    rw [iterationCap?_withState, iterationCap?_withState]
  obtain ⟨warnings, hcoupled⟩ :=
    hpassed.rejudged hlenient hcap hjudge (List.ofFn fun i => (ss i).y0)
  refine ⟨_, warnings, ?_, coupled_accepts.mpr ⟨t0, tEnd, step, List.ofFn v, List.ofFn ps, rfl,
    ?_, ?_, ?_, ?_, ?_, ?_, ?_, ?_, hcoupled⟩⟩
  · refine ⟨fun i => ?_, fun i => ?_, fun i => ?_, fun i => ?_, rfl⟩
    · exact (hpasses i).t0.trans hpassed.t0.symm
    · exact (hpasses i).tEnd.trans hpassed.tEnd.symm
    · exact (hpasses i).stepSize.trans hpassed.stepSize.symm
    · have hcap := (hpasses i).cap.symm.trans ((iterationCap?_withState (v i)).trans
        ((iterationCap?_withState (v 0)).symm.trans hpassed.cap))
      exact Option.some.inj hcap
  · rwa [Value.option_withState _ _ (by decide)]
  · rwa [Value.option_withState _ _ (by decide)]
  · rwa [Value.option_withState _ _ (by decide)]
  · rw [Value.option_withState_y0]
    exact row?_ofFn hps
  · intro hnil
    have hlen := congrArg List.length hnil
    rw [List.length_ofFn] at hlen
    exact NeZero.ne n hlen
  · rw [Value.parameters?_eq_some, forall₂_ofFn_iff]
    exact ⟨ps, rfl, hps⟩
  · rw [any_ofFn_eq_false]
    exact hsmall
  · show (List.ofFn fun i => (ss i).y0) = _
    rw [List.map_ofFn]
    congr 1
    exact funext hy

end

end Settings

end InitialValue
