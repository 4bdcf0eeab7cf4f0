/-
  One dimension throughout.

  Adding lists repeats a single component as often as the other list asks, so a right-hand side that
  answers with one number would not be noticed by the formulas.  It is noticed because the slope of
  a system counts every answer.

  1. **Counting** — a slope with so many numbers is an answer with so many (`returns_of_slope`).
  2. **Steps** — where all slopes have the length of the state, so has the next state
     (`MethodKey.length_step`), and every call of every stage was counted (`MethodKey.step_answered`).
  3. **Runs** — `Journey.Trail.ofDimension`, by induction along the trail.
  4. **Formulas** — a system with another number of equations, or with a component beyond the
     state, has no slope at all, so the run ends before the first step.
-/
import InitialValue.Proofs.Formula.Systems
import InitialValue.Proofs.Method.Stages
import InitialValue.Proofs.RightSide
import InitialValue.Proofs.Solver.Ranges
import InitialValue.Proofs.Solver.Soundness

namespace InitialValue

variable {α : Type} [Scalar α]

/-! ## Counting -/

namespace RightSide

/-- The right-hand side answers at a time and a state, with so many numbers in all. -/
def Returns (f : RightSide α) (n : ℕ) (t : α) (y : List α) : Prop :=
  ∃ v shape xs, f t (.list (y.map .real)) = .ok v ∧ v.flatten = .ok (shape, xs) ∧ xs.length = n

theorem vectorSlope_eq_ok {f : RightSide α} {t : α} {y k : List α} :
    f.vectorSlope t y = .ok k ↔
      ∃ v shape, f t (.list (y.map .real)) = .ok v ∧ v.flatten = .ok (shape, k) := by
  unfold vectorSlope Fault.lift
  rw [bind_eq_ok]
  refine exists_congr fun v => ?_
  cases v.flatten with
  | error e => simp [Except.mapError]
  | ok p =>
    obtain ⟨shape, xs⟩ := p
    simp [Except.mapError]

/-- **A slope that was counted** is an answer of that many numbers. -/
theorem returns_of_slope {f : RightSide α} {n : ℕ} {t : α} {y k : List α}
    (h : f.vectorSlopeOf n t y = .ok k) : f.Returns n t y := by
  obtain ⟨hk, hlength⟩ := vectorSlopeOf_eq_ok.mp h
  obtain ⟨v, shape, hv, hflatten⟩ := vectorSlope_eq_ok.mp hk
  exact ⟨v, shape, k, hv, hflatten, hlength⟩

end RightSide

/-! ## Steps -/

/-- **A step keeps the length of the state** where all slopes have that length. -/
theorem MethodKey.length_step {n : ℕ} {key : MethodKey} {f : Slope α (List α)}
    (hf : ∀ t y k, f t y = .ok k → k.length = n) {y z : List α} {h t' : α} (hy : y.length = n)
    (hstep : key.step f t y h = .ok (t', z)) : z.length = n := by
  have hstate := map_snd_eq_ok.mpr ⟨t', hstep⟩
  cases key with
  | euler =>
    simp only [MethodKey.step, MethodKey.eulerStep_state, bind_eq_ok] at hstate
    obtain ⟨k, hk, hz⟩ := hstate
    exact length_advance hy (hf _ _ _ hk) hz
  | heun =>
    simp only [MethodKey.step, MethodKey.heunStep_state, bind_eq_ok] at hstate
    obtain ⟨k1, hk1, predicted, -, k2, hk2, sum, hsum, hz⟩ := hstate
    have hsum := length_add (hf _ _ _ hk1) (hf _ _ _ hk2) hsum
    exact length_advance hy hsum hz
  | rk4 =>
    simp only [MethodKey.step, MethodKey.rk4Step_state, bind_eq_ok] at hstate
    obtain ⟨k1, hk1, y1, -, k2, hk2, y2, -, k3, hk3, y3, -, k4, hk4, s2, hs2, s3, hs3, s4, hs4,
      hz⟩ := hstate
    have hs2 := length_advance (hf _ _ _ hk1) (hf _ _ _ hk2) hs2
    have hs3 := length_advance hs2 (hf _ _ _ hk3) hs3
    have hs4 := length_add hs3 (hf _ _ _ hk4) hs4
    exact length_advance hy hs4 hz

/-! ## Runs -/

/-- Everything in a solution of a system has the dimension `n`: states, slopes and ranges, and every
    answer that the right-hand side gave to get them. -/
structure Solution.OfDimension (s : Solution α (List α)) (f : RightSide α) (n : ℕ) (grid : Grid α)
    (key : MethodKey) : Prop where
  state : ∀ p ∈ s.points, p.y.length = n
  slope : ∀ p ∈ s.points, p.slope.length = n
  ranges : s.ranges.length = n
  /-- The answers that became the slopes of points. -/
  recorded : ∀ p ∈ s.points, f.Returns n p.t p.y
  /-- The answers at the stages of every step. -/
  stages : ∀ (k : ℕ) (p q : Point α (List α)), s.points[k]? = some p → s.points[k + 1]? = some q →
    (∃ t, (key.stages p.t p.y (grid.stepFrom p.t)).run (f.vectorSlopeOf n) = .ok (t, q.y)) ∧
      ∀ call ∈ (key.stages p.t p.y (grid.stepFrom p.t)).calls (f.vectorSlopeOf n),
        f.Returns n call.1 call.2

namespace Journey.Trail

variable {plan : Plan α (List α)} (f : RightSide α) (key : MethodKey) {n m : ℕ} {y0 : List α}
  {p : Point α (List α)} {earlier : List (Point α (List α))}

/-- All points of a trail have the dimension of the initial state. -/
theorem length_points (h : Trail plan y0 m p earlier) (hslope : plan.slope = f.vectorSlopeOf n)
    (hstep : plan.step = key.step) (hy0 : y0.length = n) :
    ∀ q ∈ (p :: earlier).reverse, q.y.length = n ∧ plan.slope q.t q.y = .ok q.slope := by
  have hcount : ∀ t y k, plan.slope t y = .ok k → k.length = n := by
    rw [hslope]
    exact fun t y k hk => (RightSide.vectorSlopeOf_eq_ok.mp hk).2
  -- the length goes from a state to the next; the slope of a point is known from the point alone
  refine h.forall_kept (fun q hat => ?_) fun {_ a b _} _ _ hnext ⟨ha, _⟩ => ?_
  · obtain ⟨ht, hy, hk, -⟩ := Point.at?_eq_ok.mp hat
    rw [ht, hy]
    exact ⟨hy0, hk⟩
  · obtain ⟨⟨t, hb⟩, -, -, hat⟩ := Point.next_eq_ok.mp hnext
    obtain ⟨-, -, hk, -⟩ := Point.at?_eq_ok.mp hat
    rw [hstep] at hb
    exact ⟨MethodKey.length_step hcount ha hb, hk⟩

/-- **The points of a trail have one dimension**, and so had all answers on the way. -/
theorem ofDimension (h : Trail plan y0 m p earlier) (hslope : plan.slope = f.vectorSlopeOf n)
    (hstep : plan.step = key.step) (hy0 : y0.length = n) (method : Method) (options : Value α) :
    (Solution.ofPoints method options (p :: earlier).reverse).OfDimension f n plan.grid key := by
  have hpoints := h.length_points f key hslope hstep hy0
  rw [hslope] at hpoints
  constructor
  case state => exact fun q hq => (hpoints q hq).1
  case slope => exact fun q hq => (RightSide.vectorSlopeOf_eq_ok.mp (hpoints q hq).2).2
  case ranges =>
    exact Solution.length_rangesOf (by simp) fun q hq => (hpoints q hq).1
  case recorded => exact fun q hq => RightSide.returns_of_slope (hpoints q hq).2
  case stages =>
    intro k a b ha hb
    obtain ⟨-, hnext⟩ := h.next_point ha hb
    obtain ⟨⟨t, hstate⟩, -⟩ := Point.next_eq_ok.mp hnext
    rw [hstep, hslope] at hstate
    refine ⟨⟨t, (MethodKey.run_stages _ _ _ _ _).trans hstate⟩, fun call hcall => ?_⟩
    obtain ⟨k, hk⟩ := MethodKey.step_answered hstate call hcall
    exact RightSide.returns_of_slope hk

end Journey.Trail

/-- The state of accepted options has an entry for every item that was given. -/
theorem Settings.length_coupled {c : Config α} {options : Value α} {s : Settings α (List α)}
    {warnings : List String} (h : coupled c options = .ok ⟨.ok s, warnings⟩) :
    ∃ items, options.option "y0" = .list items ∧ s.y0.length = items.length := by
  obtain ⟨_, _, _, items, y0, -, -, -, -, hrow, -, hy0, -, hy, -⟩ := coupled_accepts.mp h
  refine ⟨items, (row?_eq_some.mp hrow).1, ?_⟩
  rw [hy, List.length_map, (Value.parameters?_eq_some.mp hy0).length_eq]

/-! ## Formulas -/

namespace Formula.Coupled

/-- An accepted system was read from a collection of formulas. -/
theorem eq_ofItems {formulas : Value Float} {system : Coupled} {es : List Equation}
    (hread : read formulas = .ok system) (hes : system.outcome = .ok es) :
    ∃ items, system = ofItems items := by
  cases formulas with
  | text s =>
    cases hread
    cases hes
  | null => exact ⟨[], (ok_eq_ok.mp hread).symm⟩
  | list items => exact ⟨items, (ok_eq_ok.mp hread).symm⟩
  | record fields => exact ⟨_, (ok_eq_ok.mp hread).symm⟩
  | _ => cases hread

/-- What a system answers has an entry for every equation, and no component is missing. -/
theorem evaluate_length {system : Coupled} {es : List Equation} (hes : system.outcome = .ok es)
    {t : Float} {y ks : List Float}
    (h : system.evaluate (.real t) (.list (y.map .real)) = .ok ks) :
    system.components ≤ y.length ∧ ks.length = es.length := by
  obtain ⟨_, Y, -, hY, hlength, hks⟩ := evaluate_eq_ok hes h
  rw [Value.flatten_real] at hY
  cases hY
  exact ⟨hlength, by rw [← (mapM_eq_ok.mp hks).length_eq, List.length_zipIdx]⟩

/-- A system has a slope only where it has as many equations as the state has entries, and all
    components that it refers to are there. -/
theorem fits_of_slope {system : Coupled} {es : List Equation} (hes : system.outcome = .ok es)
    {n : ℕ} {t : Float} {y k : List Float} (h : system.toRightSide.vectorSlopeOf n t y = .ok k) :
    system.components ≤ y.length ∧ es.length = n := by
  obtain ⟨v, shape, xs, hv, hflatten, hlength⟩ := RightSide.returns_of_slope h
  obtain ⟨ks, hks, hv⟩ := bind_eq_ok.mp hv
  cases hv
  rw [Value.flatten_real] at hflatten
  cases hflatten
  obtain ⟨hle, hes⟩ := evaluate_length hes hks
  exact ⟨hle, hes.symm.trans hlength⟩

end Formula.Coupled

namespace Solver

/-- A system that is accepted is solved with what it computes. -/
theorem solveFormulas_eq {s : Solver Float (List Float)} {formulas options : Value Float}
    {system : Formula.Coupled} {es : List Formula.Equation}
    (hread : Formula.Coupled.read formulas = .ok system) (hes : system.outcome = .ok es) :
    s.solveFormulas formulas options = s.solveWith system.toRightSide options := by
  have hside : system.rightSide = .ok system.toRightSide := by
    unfold Formula.Coupled.rightSide
    rw [hes]
  unfold solveFormulas
  rw [hread]
  show s.solveRead (.ok system.rightSide) options = _
  rw [hside]
  rfl

/-- A call without a slope at the initial point fails there. -/
theorem failsWith_atStart {σ : Type} [State α σ] {s : Solver α σ} {f : RightSide α}
    {options : Value α} {settings : Settings α σ} {warnings : List String} {method : Method}
    {width : ℕ} (hwidth : s.form.width options = .ok width)
    (hcheck : s.form.check s.config options = .ok ⟨.ok settings, warnings⟩)
    (hfind : Method.find? s.form.methods (Solution.requestedMethod options) = some method)
    (hslope : ∀ k, s.form.slope f settings.y0 settings.t0 settings.y0 ≠ .ok k) :
    ∃ cause, s.FailsWith f options (.halted (.atStep 0 cause)) := by
  cases hat : Point.at? (s.plan f method settings).slope (s.plan f method settings).grid.t0
      settings.y0 with
  | error cause =>
    exact ⟨cause, failsWith_of_halted hwidth hcheck hfind (Journey.Ends.noStart hat).eq_start⟩
  | ok p => exact absurd (Point.at?_eq_ok.mp hat).2.2.1 (hslope _)

end Solver

/-- The wording of a failure at the initial point. -/
theorem Halt.message_atStart (cause : Fault) :
    (Halt.atStep 0 cause).message = "Integration failed at step 0: " ++ cause.message :=
  congrArg (· ++ cause.message) (by decide)

/-! ## Whole calls -/

end InitialValue
