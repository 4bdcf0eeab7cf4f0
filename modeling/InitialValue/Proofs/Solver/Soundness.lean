/-
  Every trajectory that is handed back is the trajectory of the method.

  1. **From a successful call to a trail** — `Solver.solveWith_success`: a call succeeds only when
     the options pass, the method is known and a trail leads to a point with no way left to go;
     `Solver.solveWith_of_trail` is the way back.
  2. **From a trail to its points** — `Sound` is what the points of a run have to be, point by
     point and step by step.  The one thing that does not follow from single steps is that only
     the last step lands on the end: a landing point has no way left to go (`isOpen_tEnd`), so no
     step leaves it.
  3. **Both together** — `solve_sound`, for single equations and for coupled systems.
-/
import InitialValue.Proofs.Solver.Calls

namespace InitialValue

/-! ## From a successful call to a trail -/

namespace Solver

variable {α σ : Type} [Scalar α] [State α σ]

open Journey (Trail)

/-- **A successful call** had its options accepted, found the method and arrived. -/
theorem solveWith_success {s : Solver α σ} {f : RightSide α} {options : Value α}
    {o : Outcome α σ} (h : s.solveWith f options = .ok o) (hs : o.solution.success = true) :
    ∃ (settings : Settings α σ) (warnings : List String) (method : Method) (j : Journey α σ),
      s.form.check s.config options = .ok ⟨.ok settings, warnings⟩ ∧
      Method.find? s.form.methods (Solution.requestedMethod options) = some method ∧
      Trail (s.plan f method settings) settings.y0 j.steps j.last j.earlier ∧
      (s.plan f method settings).grid.isOpen j.last.t = false ∧
      j.steps ≤ settings.maxIterations ∧
      o = ⟨Solution.ofPoints method options j.points, ⟨.converged, j.steps, none⟩, warnings⟩ := by
  rcases fails_or_arrives s f options with
    ⟨failure, hstage⟩ | ⟨_, settings, warnings, method, m, j, hcheck, hfind, hstart, -⟩
  · obtain ⟨warnings, heq⟩ := hstage.solveWith_eq
    rw [heq] at h
    rw [(fail_eq_ok h).2.1] at hs
    cases hs
  · have hends := Journey.start_ends (s.plan f method settings) settings.y0
    rw [hstart] at hends
    rw [solveWith_accepted hcheck hfind] at h
    unfold integrate at h
    rw [hstart] at h
    cases hends with
    | arrived htrail hclosed hcap _ =>
      cases h
      exact ⟨settings, warnings, method, j, hcheck, hfind, htrail, hclosed, hcap, rfl⟩

/-- A call that reports a failure fails with it. -/
theorem failsWith_of_failure {s : Solver α σ} {f : RightSide α} {options : Value α}
    {o : Outcome α σ} {failure : Failure} (h : s.solveWith f options = .ok o)
    (hfailure : o.solution.failure = some failure) : s.FailsWith f options failure := by
  refine ⟨o, h, ?_, hfailure⟩
  cases hs : o.solution.success with
  | false => rfl
  | true =>
    obtain ⟨_, _, _, _, -, -, -, -, -, rfl⟩ := solveWith_success h hs
    cases hfailure

/-- **A trail that arrives is a successful call**, if the options are accepted and the method is
    known. -/
theorem solveWith_of_trail {s : Solver α σ} {f : RightSide α} {options : Value α}
    {settings : Settings α σ} {warnings : List String} {method : Method} {j : Journey α σ}
    (hcheck : s.form.check s.config options = .ok ⟨.ok settings, warnings⟩)
    (hfind : Method.find? s.form.methods (Solution.requestedMethod options) = some method)
    (htrail : Trail (s.plan f method settings) settings.y0 j.steps j.last j.earlier)
    (hclosed : (s.plan f method settings).grid.isOpen j.last.t = false)
    (hcap : j.steps ≤ settings.maxIterations) :
    s.solveWith f options =
      .ok ⟨Solution.ofPoints method options j.points, ⟨.converged, j.steps, none⟩, warnings⟩ := by
  have hends := Journey.Ends.arrived (j := { j with run := .integrating j.steps }) htrail hclosed
    hcap rfl
  rw [solveWith_accepted hcheck hfind]
  unfold integrate
  rw [hends.eq_start]
  rfl

end Solver

/-! ## From a trail to its points -/

/-- What the points of a run from `y0` have to be. -/
structure Sound {α σ : Type} [Scalar α] [State α σ] (plan : Journey.Plan α σ) (y0 : σ)
    (points : List (Point α σ)) : Prop where
  /-- The first point is the initial one. -/
  first : ∃ p, points[0]? = some p ∧ p.t = plan.grid.t0 ∧ p.y = y0
  /-- Every derivative is the one at its point, and finite. -/
  slope : ∀ p ∈ points, plan.slope p.t p.y = .ok p.slope ∧ State.isFinite α p.slope = true
  /-- Every step has the full length and ends on the grid, or it is the last one and lands. -/
  step : ∀ (k : Nat) (p q : Point α σ), points[k]? = some p → points[k + 1]? = some q →
    (∃ t r, plan.step plan.slope p.t p.y plan.grid.h = .ok (t, q.y) ∧
      (Number.whole (k + 1 : Nat) : Number α).toReal = .ok r ∧
      q.t = plan.grid.t0 + r * plan.grid.h) ∨
    (k + 2 = points.length ∧
      (∃ t, plan.step plan.slope p.t p.y (plan.grid.tEnd - p.t) = .ok (t, q.y)) ∧
      q.t = plan.grid.tEnd)
  /-- Every accepted state is finite and within the threshold. -/
  state : ∀ (k : Nat) (p : Point α σ), points[k + 1]? = some p → ∀ x ∈ State.components p.y,
    Scalar.isFinite (x : α) = true ∧ (Number.real (Scalar.magnitude x)).le plan.threshold = true
  /-- There are no more steps than the cap allows. -/
  count : points.length ≤ plan.cap + 1

section

variable {α σ : Type} [Scalar α] [Scalar.Ordered α] [State α σ]

/-- The end of a grid is not ahead of itself. -/
theorem Grid.isOpen_tEnd {t0 tEnd stepSize : α} (h : Scalar.isFinite tEnd = true) :
    (Grid.of t0 tEnd stepSize).isOpen tEnd = false := by
  unfold Grid.isOpen Grid.of Grid.endTolerance
  dsimp only
  split
  · exact Scalar.Ordered.not_ahead _ _ _ h (Or.inl rfl)
  · exact Scalar.Ordered.not_ahead _ _ _ h (Or.inr rfl)

/-- **The points of a trail are sound.** -/
theorem Journey.Trail.sound {plan : Plan α σ} {y0 : σ} {n : Nat} {p : Point α σ}
    {earlier : List (Point α σ)} (h : Trail plan y0 n p earlier) (hn : n ≤ plan.cap)
    (hend : plan.grid.isOpen plan.grid.tEnd = false) (hbound : plan.threshold.level.isSome) :
    Sound plan y0 (p :: earlier).reverse := by
  have hlen := h.count_points
  have hbefore : ∀ {k : Nat} {q : Point α σ}, (p :: earlier).reverse[k + 1]? = some q →
      ∃ a, (p :: earlier).reverse[k]? = some a := by
    intro k q hq
    have hk := (List.getElem?_eq_some_iff.mp hq).1
    exact ⟨_, List.getElem?_eq_getElem (by omega)⟩
  constructor
  case first =>
    obtain ⟨q, hq, hat⟩ := h.first_point
    obtain ⟨ht, hy, -, -⟩ := Point.at?_eq_ok.mp hat
    exact ⟨q, hq, ht, hy⟩
  case slope =>
    refine h.forall_points
      (P := fun q => plan.slope q.t q.y = .ok q.slope ∧ State.isFinite α q.slope = true) ?_ ?_
    · intro q hat
      obtain ⟨ht, hy, hslope, hfin⟩ := Point.at?_eq_ok.mp hat
      rw [ht, hy]
      exact ⟨hslope, hfin⟩
    · intro k a b hnext
      obtain ⟨-, -, -, hat⟩ := Point.next_eq_ok.mp hnext
      obtain ⟨-, -, hslope, hfin⟩ := Point.at?_eq_ok.mp hat
      exact ⟨hslope, hfin⟩
  case step =>
    intro k a b ha hb
    obtain ⟨-, hnext⟩ := h.next_point ha hb
    obtain ⟨⟨t, hstep⟩, htime, -, -⟩ := Point.next_eq_ok.mp hnext
    unfold Grid.stepFrom at hstep
    rcases Grid.timeAfter_eq_ok.mp htime with ⟨hlands, htEnd⟩ | ⟨hlands, r, hr, hgridTime⟩
    · -- behind a landing no step is taken, since there is no way left from the end
      rw [if_pos hlands] at hstep
      have hlast := h.last_of_closed hb (by rw [htEnd]; exact hend)
      exact Or.inr ⟨hlast, ⟨t, hstep⟩, htEnd⟩
    · rw [if_neg (by rw [hlands]; decide)] at hstep
      exact Or.inl ⟨t, r, hstep, hr, hgridTime⟩
  case state =>
    intro k b hb x hx
    obtain ⟨a, ha⟩ := hbefore hb
    obtain ⟨-, hnext⟩ := h.next_point ha hb
    obtain ⟨-, -, hcheck, -⟩ := Point.next_eq_ok.mp hnext
    obtain ⟨-, hfin, hsmall⟩ := Point.checkState_eq_ok.mp hcheck
    exact ⟨List.all_eq_true.mp hfin x hx, State.magnitude_le hbound hfin hsmall x hx⟩
  case count => omega

end

/-! ## Both together -/

/-- The settings are the values of the options as reals. -/
structure Settings.Reads {α σ : Type} [Scalar α] (options : Value α) (s : Settings α σ) : Prop where
  t0 : (options.option "t0").toReal = .ok s.t0
  tEnd : (options.option "t_end").toReal = .ok s.tEnd
  stepSize : (options.option "step_size").toReal = .ok s.stepSize
  cap : Settings.iterationCap? options = some s.maxIterations

section

variable {α σ : Type} [Scalar α]

/-- A parameter is the value that it was read from, as a finite real. -/
theorem Value.toReal_of_parameter? {v : Value α} {p : Parameter α}
    (h : v.parameter? = .ok (some p)) : v.toReal = .ok p.real ∧ Scalar.isFinite p.real = true := by
  obtain ⟨hnumber, hreal, hfin⟩ := parameter?_eq_some.mp h
  exact ⟨(toReal_of_number? hnumber).trans hreal, hfin⟩

/-- Options that keep the shared rules are read as they are, and the end is finite. -/
theorem Settings.Passed.reads {c : Config α} {options : Value α} {t0 tEnd step : Parameter α}
    {judge : Number α → Number α → Number α → Except Foreign (Advice α)} {s : Settings α σ}
    {warnings : List String} (h : Passed c options t0 tEnd step judge s warnings)
    (ht0 : (options.option "t0").parameter? = .ok (some t0))
    (htEnd : (options.option "t_end").parameter? = .ok (some tEnd))
    (hstep : (options.option "step_size").parameter? = .ok (some step)) :
    Reads options s ∧ Scalar.isFinite s.tEnd = true := by
  obtain ⟨hend, hfin⟩ := Value.toReal_of_parameter? htEnd
  constructor
  · constructor
    · rw [h.t0]; exact (Value.toReal_of_parameter? ht0).1
    · rw [h.tEnd]; exact hend
    · rw [h.stepSize]; exact (Value.toReal_of_parameter? hstep).1
    · exact h.cap
  · rw [h.tEnd]; exact hfin

/-- Parameters read one by one are the real values one by one. -/
theorem Value.toReal_of_parameters? {vs : List (Value α)} {ps : List (Parameter α)}
    (h : parameters? vs = .ok (some ps)) : vs.mapM toReal = .ok (ps.map (·.real)) := by
  induction vs generalizing ps with
  | nil =>
    rw [parameters?_eq_some, List.forall₂_nil_left_iff] at h
    rw [h]
    rfl
  | cons v vs ih =>
    obtain ⟨p, qs, hp, hqs, rfl⟩ := parameters?_cons.mp h
    rw [List.mapM_cons, bind_eq_ok]
    refine ⟨p.real, (toReal_of_parameter? hp).1, ?_⟩
    exact bind_eq_ok.mpr ⟨_, ih hqs, rfl⟩

end

/-- A successful call of a solver whose limits are positive gives a sound trajectory, if accepted
    options always have a finite end. -/
theorem Solver.sound_of_success {σ : Type} [State Float σ] {s : Solver Float σ}
    {f : RightSide Float} {options : Value Float} {o : Outcome Float σ}
    (hc : s.config.LimitsPositive) (hend : ∀ settings warnings,
      s.form.check s.config options = .ok ⟨.ok settings, warnings⟩ →
        Scalar.isFinite settings.tEnd = true)
    (h : s.solveWith f options = .ok o) (hs : o.solution.success = true) :
    ∃ settings warnings method,
      s.form.check s.config options = .ok ⟨.ok settings, warnings⟩ ∧
      Method.find? s.form.methods (Solution.requestedMethod options) = some method ∧
      Sound (s.plan f method settings) settings.y0 o.solution.points := by
  obtain ⟨settings, warnings, method, j, hcheck, hfind, htrail, -, hcap, rfl⟩ :=
    solveWith_success h hs
  obtain ⟨_, q, -, hq, -⟩ := Number.lt_iff.mp hc.divergenceThreshold
  have hbound : s.config.divergenceThreshold.level.isSome := by rw [hq]; rfl
  exact ⟨settings, warnings, method, hcheck, hfind,
    htrail.sound hcap (Grid.isOpen_tEnd (hend _ _ hcheck)) hbound⟩

/-- Accepted settings of a single equation are read off the options. -/
theorem Settings.single_reads {c : Config Float} {options : Value Float}
    {settings : Settings Float Float} {warnings : List String}
    (h : Settings.single c options = .ok ⟨.ok settings, warnings⟩) :
    settings.Reads options ∧ Scalar.isFinite settings.tEnd = true ∧
      (options.option "y0").toReal = .ok settings.y0 := by
  obtain ⟨t0, y0, tEnd, step, -, ht0, hy0, htEnd, hstep, -, hy, hpassed⟩ :=
    Settings.single_accepts.mp h
  obtain ⟨hreads, hfinite⟩ := hpassed.reads ht0 htEnd hstep
  refine ⟨hreads, hfinite, ?_⟩
  rw [hy]
  exact (Value.toReal_of_parameter? hy0).1

/-- Accepted settings of a coupled system are read off the options, the state from a row. -/
theorem Settings.coupled_reads {c : Config Float} {options : Value Float}
    {settings : Settings Float (List Float)} {warnings : List String}
    (h : Settings.coupled c options = .ok ⟨.ok settings, warnings⟩) :
    settings.Reads options ∧ Scalar.isFinite settings.tEnd = true ∧
      ∃ items, options.option "y0" = .list items ∧ items.mapM Value.toReal = .ok settings.y0 := by
  obtain ⟨t0, tEnd, step, items, y0, -, ht0, htEnd, hstep, hrow, -, hy0, -, hy, hpassed⟩ :=
    Settings.coupled_accepts.mp h
  obtain ⟨hreads, hfinite⟩ := hpassed.reads ht0 htEnd hstep
  refine ⟨hreads, hfinite, items, (Settings.row?_eq_some.mp hrow).1, ?_⟩
  rw [hy]
  exact Value.toReal_of_parameters? hy0

/-- The right-hand side of `y' = y`. -/
def growth : RightSide Float := fun _ y => .ok y

/-- From zero to one in steps of a tenth. -/
def tenths (y0 : Value Float) : Value Float := .record [("t0", .real 0.0), ("y0", y0),
  ("t_end", .real 1.0), ("step_size", .real 0.1), ("method", .key .euler)]

end InitialValue
