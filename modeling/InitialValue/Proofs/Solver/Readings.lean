/-
  Numbers read off a run.

  Over the exact rationals the length that is given to the step formula is the difference of the
  recorded times.  So a reading whose derivative is known as a function of time, and whose rule is
  the difference of a primitive, is that primitive along the whole run, however long the last step
  is and whichever way the run goes (`Journey.Trail.accrues`).

  1. **Conserved sums** — `solve_conserves`: nothing is added to a weighed sum whose derivative is
     zero.
  2. **Polynomials in time** — `solve_integrates`: they are integrated exactly by methods of a
     higher order than their degree.
-/
import InitialValue.Proofs.Method.Quadrature
import InitialValue.Proofs.RightSide
import InitialValue.Proofs.Solver.Calls
import InitialValue.Proofs.Solver.ExactGrid
import InitialValue.Proofs.Solver.ExactOptions

namespace InitialValue

open Polynomial

/-! ## Along a run -/

section

variable {σ : Type} [State ℚ σ] {kind : σ → Prop} {reading : σ → ℚ} {w integral : ℚ → ℚ}

/-- **A reading along a run** adds up the integral of its derivative. -/
theorem Journey.Trail.accrues {plan : Plan ℚ σ} {y0 : σ} {t0 tEnd s : ℚ} {key : MethodKey} {n : ℕ}
    {p : Point ℚ σ} {earlier : List (Point ℚ σ)} (h : Trail plan y0 n p earlier)
    (hgrid : plan.grid = Grid.of t0 tEnd s) (hs : 0 < s) (hle : s ≤ |tEnd - t0|)
    (hstep : plan.step = key.step) (hlinear : LinearOn kind reading)
    (hslope : ∀ t y k, kind y → plan.slope t y = .ok k → kind k ∧ reading k = w t)
    (hrule : ∀ t h, key.quadrature w t h = integral (t + h) - integral t) (hy0 : kind y0) :
    ∀ q ∈ (p :: earlier).reverse,
      kind q.y ∧ reading q.y = reading y0 + (integral q.t - integral t0) := by
  refine h.forall_kept
    (P := fun q => kind q.y ∧ reading q.y = reading y0 + (integral q.t - integral t0)) ?_ ?_
  · intro q hat
    obtain ⟨ht, hy, -, -⟩ := Point.at?_eq_ok.mp hat
    have hstart : plan.grid.t0 = t0 := by rw [hgrid]; rfl
    rw [ht, hy, hstart, sub_self, add_zero]
    exact ⟨hy0, rfl⟩
  · rintro m a b before htrail hopen hnext ⟨ha, hreading⟩
    obtain ⟨⟨t, hformula⟩, -, -, -⟩ := Point.next_eq_ok.mp hnext
    -- the length of the step is the difference of the times, so the integrals join up
    rw [htrail.stepFrom_eq hgrid hs hle hopen hnext, hstep] at hformula
    obtain ⟨hb, hsum⟩ := MethodKey.step_reading hlinear hslope ha hformula
    refine ⟨hb, ?_⟩
    rw [hsum, hreading, hrule, add_sub_cancel]
    ring

/-- A reading along a call that succeeds. -/
theorem Solver.Succeeds.accrues {s : Solver ℚ σ} {f : RightSide ℚ} {options : Value ℚ}
    {points : List (Point ℚ σ)} (h : s.Succeeds f options points)
    (hfits : ∀ settings warnings, s.form.check s.config options = .ok ⟨.ok settings, warnings⟩ →
      0 < settings.stepSize ∧ settings.stepSize ≤ |settings.tEnd - settings.t0|) :
    ∃ settings warnings method, s.form.check s.config options = .ok ⟨.ok settings, warnings⟩ ∧
      Method.find? s.form.methods (Solution.requestedMethod options) = some method ∧
      ∀ (kind : σ → Prop) (reading : σ → ℚ) (w integral : ℚ → ℚ), LinearOn kind reading →
        (∀ t y k, kind y → s.form.slope f settings.y0 t y = .ok k → kind k ∧ reading k = w t) →
        (∀ t h, method.key.quadrature w t h = integral (t + h) - integral t) →
        kind settings.y0 → ∀ p ∈ points, kind p.y ∧
          reading p.y = reading settings.y0 + (integral p.t - integral settings.t0) := by
  obtain ⟨settings, warnings, method, n, p, earlier, hcheck, hfind, htrail, rfl⟩ := h.trail
  obtain ⟨hs, hle⟩ := hfits _ _ hcheck
  exact ⟨settings, warnings, method, hcheck, hfind, fun kind reading w integral hlinear hslope
    hrule hy0 => htrail.accrues rfl hs hle rfl hlinear hslope hrule hy0⟩

end

/-! ## Conserved sums -/

/-- **Linear invariants are conserved.**  When the derivative of a weighed sum of components is zero
    at all times and states, the sum is the initial one at every point of a successful call: for any
    number of components, weights, right-hand side, configuration and options. -/
theorem solve_conserves (c : Config ℚ) {n : ℕ} (weights : Fin n → ℚ) {F : RightSide ℚ}
    (hF : ∀ t y k, y.length = n → F.vectorSlopeOf n t y = .ok k → weigh weights k = 0)
    {options : Value ℚ} {points : List (Point ℚ (List ℚ))}
    (h : (⟨.coupled, c⟩ : Solver ℚ (List ℚ)).Succeeds F options points) :
    ∃ settings warnings, Settings.coupled c options = .ok ⟨.ok settings, warnings⟩ ∧
      (settings.y0.length = n → ∀ p ∈ points, p.y.length = n ∧
        weigh weights p.y = weigh weights settings.y0) := by
  obtain ⟨settings, warnings, method, hcheck, -, haccrues⟩ :=
    h.accrues fun _ _ => Settings.coupled_step
  refine ⟨settings, warnings, hcheck, fun hn p hp => ?_⟩
  have hslope : ∀ t y k, y.length = n → F.vectorSlopeOf settings.y0.length t y = .ok k →
      k.length = n ∧ weigh weights k = 0 := by
    intro t y k hy hk
    rw [hn] at hk
    exact ⟨(RightSide.vectorSlopeOf_eq_ok.mp hk).2, hF t y k hy hk⟩
  have hrule : ∀ t h : ℚ, method.key.quadrature (fun _ => 0) t h = 0 - 0 := by
    intro t h
    cases method.key <;> simp [MethodKey.quadrature]
  obtain ⟨hlength, hsum⟩ := haccrues _ _ (fun _ => 0) (fun _ => 0) (linearOn_weigh weights) hslope
    hrule hn p hp
  rw [sub_self, add_zero] at hsum
  exact ⟨hlength, hsum⟩

/-- Two amounts that are exchanged, at rates that change with time. -/
def exchange : RightSide ℚ := fun t y =>
  match y with
  | .list [.real a, .real b] => .ok (.list [.real (b - t * a), .real (t * a - b)])
  | _ => .error (.foreign .wrongType)

theorem solve_conserves_exchange : ∃ points : List (Point ℚ (List ℚ)),
    lenientCoupled.Succeeds exchange (.coarse 0 (-1) (.list [.whole 3, .whole 5]) .rk4) points ∧
      ∀ p ∈ points, weigh ![1, 1] p.y = 8 := by
  obtain ⟨points, h⟩ := Solver.exists_succeeds lenientCoupled exchange
    (.coarse 0 (-1) (.list [.whole 3, .whole 5]) .rk4) (by decide +kernel)
  have hF : ∀ t y k, y.length = 2 → exchange.vectorSlopeOf 2 t y = .ok k →
      weigh (![1, 1] : Fin 2 → ℚ) k = 0 := by
    intro t y k hy hk
    obtain ⟨a, b, rfl⟩ := List.length_eq_two.mp hy
    have hslope : exchange.vectorSlope t [a, b] = .ok [b - t * a, t * a - b] :=
      RightSide.vectorSlope_of_list rfl
    cases hslope.symm.trans (RightSide.vectorSlopeOf_eq_ok.mp hk).1
    simp [weigh, Fin.sum_univ_two]
  obtain ⟨settings, warnings, hcheck, hsum⟩ :=
    solve_conserves lenientSolver.config ![1, 1] hF h
  obtain ⟨s, w, hs, hy0⟩ := Solver.exists_accepted
    (r := Settings.coupled lenientSolver.config (.coarse 0 (-1) (.list [.whole 3, .whole 5]) .rk4))
    (P := fun s => s.y0 = [3, 5]) (by decide +kernel)
  cases hcheck.symm.trans hs
  refine ⟨points, h, fun p hp => ?_⟩
  rw [(hsum (by rw [hy0]; rfl) p hp).2, hy0]
  norm_num [weigh, Fin.sum_univ_two]

/-! ## Polynomials in time -/

/-- The methods that can be found are those of the catalogs. -/
theorem Method.mem_of_find? {α : Type} {catalog : List Method} {v : Value α} {m : Method}
    (h : find? catalog v = some m) : m ∈ catalog := by
  unfold find? at h
  obtain ⟨k, -, hk⟩ := Option.bind_eq_some_iff.mp h
  exact List.mem_of_find?_eq_some hk

/-- The order of a method that was looked up and found. -/
theorem Method.order_of_find? {α : Type} {catalog : List Method} {v : Value α} {m : Method}
    {order : ℕ} (h : find? catalog v = some m)
    (horder : (find? catalog v).map (·.order) = some order) : m.order = order := by
  rw [h] at horder
  exact Option.some.inj horder

/-- **Polynomial right-hand sides are integrated exactly** over the whole run, by every method whose
    order is above the degree: for single equations, and for every component of a coupled system
    that has one. -/
theorem solve_integrates (c : Config ℚ) (f : RightSide ℚ) (options : Value ℚ) (q : ℚ[X]) :
    (∀ points : List (Point ℚ ℚ), (⟨.single, c⟩ : Solver ℚ ℚ).Succeeds f options points →
      (∀ t y k, f.slope t y = .ok k → k = q.eval t) →
      ∃ settings warnings method, Settings.single c options = .ok ⟨.ok settings, warnings⟩ ∧
        Method.find? Method.single (Solution.requestedMethod options) = some method ∧
        (q.natDegree < method.order → ∀ p ∈ points,
          (p.y : ℝ) = settings.y0 + ∫ x in (settings.t0 : ℝ)..p.t, aeval x q)) ∧
    (∀ (points : List (Point ℚ (List ℚ))) (i : ℕ),
      (⟨.coupled, c⟩ : Solver ℚ (List ℚ)).Succeeds f options points →
      (∀ t y k b, f.vectorSlope t y = .ok k → k[i]? = some b → b = q.eval t) →
      ∃ settings warnings method, Settings.coupled c options = .ok ⟨.ok settings, warnings⟩ ∧
        Method.find? Method.coupled (Solution.requestedMethod options) = some method ∧
        (q.natDegree < method.order → ∀ a, settings.y0[i]? = some a → ∀ p ∈ points,
          ∃ b, p.y[i]? = some b ∧
            (b : ℝ) = a + ∫ x in (settings.t0 : ℝ)..p.t, aeval x q)) := by
  constructor
  · intro points h hf
    obtain ⟨settings, warnings, method, hcheck, hfind, haccrues⟩ :=
      h.accrues fun _ _ => Settings.single_step
    refine ⟨settings, warnings, method, hcheck, hfind, fun hq p hp => ?_⟩
    rw [Method.order_eq (Or.inl (Method.mem_of_find? hfind))] at hq
    -- a quadrature that is exact for the polynomial sums up to its integral
    obtain ⟨-, hsum⟩ := haccrues _ _ _ _ linearOn_number
      (fun t y k _ hk => ⟨trivial, hf t y k hk⟩) (method.key.quadrature_eval hq) trivial p hp
    rw [integral_aeval hq]
    exact_mod_cast hsum
  · intro points i h hf
    obtain ⟨settings, warnings, method, hcheck, hfind, haccrues⟩ :=
      h.accrues fun _ _ => Settings.coupled_step
    refine ⟨settings, warnings, method, hcheck, hfind, fun hq a ha p hp => ?_⟩
    rw [Method.order_eq (Or.inr (Method.mem_of_find? hfind))] at hq
    have hi : i < settings.y0.length := (List.getElem?_eq_some_iff.mp ha).1
    -- the component is followed as a number that is there at every point
    have hcomponent : ∀ y : List ℚ, y.length = settings.y0.length → y[i]? = some (y.getD i 0) := by
      intro y hy
      rw [List.getD_eq_getElem?_getD, List.getElem?_eq_getElem (hy ▸ hi)]
      rfl
    have hslope : ∀ t y k, y.length = settings.y0.length →
        f.vectorSlopeOf settings.y0.length t y = .ok k →
          k.length = settings.y0.length ∧ k.getD i 0 = q.eval t := by
      intro t y k _ hk
      obtain ⟨hk, hlength⟩ := RightSide.vectorSlopeOf_eq_ok.mp hk
      exact ⟨hlength, hf t y k _ hk (hcomponent k hlength)⟩
    obtain ⟨hlength, hsum⟩ := haccrues _ _ _ _ (linearOn_component settings.y0.length i) hslope
      (method.key.quadrature_eval hq) rfl p hp
    refine ⟨_, hcomponent p.y hlength, ?_⟩
    rw [integral_aeval hq, hsum, Option.some.inj (ha.symm.trans (hcomponent settings.y0 rfl))]
    push_cast
    rfl

/-- The right-hand side of `y' = t³`. -/
def cube : RightSide ℚ := fun t _ => .ok (.real (t ^ 3))

/-- The right-hand side of `x' = 1`, `y' = t³`. -/
def timeAndCube : RightSide ℚ := fun t _ => .ok (.list [.real 1, .real (t ^ 3)])

theorem solve_integrates_cube :
    (∃ points : List (Point ℚ ℚ),
      lenientSolver.Succeeds cube (.coarse 1 0 (.whole 2) .rk4) points ∧
      ∀ p ∈ points, (p.y : ℝ) = 2 + ∫ x in (1 : ℝ)..p.t, x ^ 3) ∧
    (∃ points : List (Point ℚ (List ℚ)),
      lenientCoupled.Succeeds timeAndCube (.coarse 1 0 (.list [.whole 0, .whole 2]) .rk4) points ∧
      ∀ p ∈ points, ∃ b : ℚ, p.y[1]? = some b ∧ (b : ℝ) = 2 + ∫ x in (1 : ℝ)..p.t, x ^ 3) := by
  have hcube : (X ^ 3 : ℚ[X]).natDegree < 4 := by
    rw [natDegree_X_pow]
    decide
  constructor
  · obtain ⟨points, h⟩ := Solver.exists_succeeds lenientSolver cube
      (.coarse 1 0 (.whole 2) .rk4) (by decide +kernel)
    have hf : ∀ t y k : ℚ, cube.slope t y = .ok k → k = (X ^ 3 : ℚ[X]).eval t := by
      intro t y k hk
      rw [eval_pow, eval_X]
      exact (ok_eq_ok.mp hk).symm
    obtain ⟨settings, warnings, method, hcheck, hfind, hexact⟩ :=
      (solve_integrates lenientSolver.config _ _ (X ^ 3)).1 points h hf
    obtain ⟨s, w, hs, ht0, hy0⟩ := Solver.exists_accepted
      (r := Settings.single lenientSolver.config (.coarse 1 0 (.whole 2) .rk4))
      (P := fun s => s.t0 = 1 ∧ s.y0 = 2) (by decide +kernel)
    cases hcheck.symm.trans hs
    have horder : method.order = 4 := Method.order_of_find? hfind (by decide +kernel)
    refine ⟨points, h, fun p hp => ?_⟩
    have hpoint := hexact (horder ▸ hcube) p hp
    rw [ht0, hy0] at hpoint
    simpa using hpoint
  · obtain ⟨points, h⟩ := Solver.exists_succeeds lenientCoupled timeAndCube
      (.coarse 1 0 (.list [.whole 0, .whole 2]) .rk4) (by decide +kernel)
    have hf : ∀ (t : ℚ) (y k : List ℚ) (b : ℚ), timeAndCube.vectorSlope t y = .ok k →
        k[1]? = some b → b = (X ^ 3 : ℚ[X]).eval t := by
      intro t y k b hk hb
      have hslope : timeAndCube.vectorSlope t y = .ok [1, t ^ 3] :=
        RightSide.vectorSlope_of_list rfl
      cases hk.symm.trans hslope
      cases hb
      rw [eval_pow, eval_X]
    obtain ⟨settings, warnings, method, hcheck, hfind, hexact⟩ :=
      (solve_integrates lenientSolver.config _ _ (X ^ 3)).2 points 1 h hf
    obtain ⟨s, w, hs, ht0, hy0⟩ := Solver.exists_accepted
      (r := Settings.coupled lenientSolver.config (.coarse 1 0 (.list [.whole 0, .whole 2]) .rk4))
      (P := fun s => s.t0 = 1 ∧ s.y0 = [0, 2]) (by decide +kernel)
    cases hcheck.symm.trans hs
    have horder : method.order = 4 := Method.order_of_find? hfind (by decide +kernel)
    refine ⟨points, h, fun p hp => ?_⟩
    have hstate : settings.y0[1]? = some 2 := by rw [hy0]; rfl
    obtain ⟨b, hb, hpoint⟩ := hexact (horder ▸ hcube) 2 hstate p hp
    refine ⟨b, hb, ?_⟩
    rw [ht0] at hpoint
    simpa using hpoint

end InitialValue
