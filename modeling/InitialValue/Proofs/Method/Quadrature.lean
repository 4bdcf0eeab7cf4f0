/-
  Step formulas as quadrature rules.

  A number that goes along with sums and multiples of states can be followed through a step without
  looking at the rest of the state: where its derivative is known as a function of time, a step adds
  what the rule of the method makes of that function.

  1. **Readings** — `LinearOn`: the number itself, a component, a weighed sum of components.
  2. **Steps** — `MethodKey.quadrature` is the rule behind each formula (`MethodKey.step_reading`).
  3. **Polynomials** — the rule of a method is exact for polynomials of a degree below its order
     (`MethodKey.quadrature_eval`), with the integral as a rational number (`primitive`,
     `integral_aeval`).
-/
import InitialValue.Proofs.Method.Order
import Mathlib.Analysis.SpecialFunctions.Integrals.Basic
import Mathlib.Data.List.GetD

namespace InitialValue

open Finset (range)
open Polynomial

/-! ## Readings -/

/-- A number read off states of one kind, which goes along with their sums and multiples. -/
structure LinearOn {σ : Type} [State ℚ σ] (kind : σ → Prop) (reading : σ → ℚ) : Prop where
  add {x y z : σ} : kind x → kind y → State.add ℚ x y = .ok z →
    kind z ∧ reading z = reading x + reading y
  scale (a : ℚ) {x : σ} : kind x →
    kind (State.scale a x) ∧ reading (State.scale a x) = a * reading x

theorem LinearOn.advance {σ : Type} [State ℚ σ] {kind : σ → Prop} {reading : σ → ℚ}
    (h : LinearOn kind reading) {y k z : σ} {a : ℚ} (hy : kind y) (hk : kind k)
    (hz : MethodKey.advance y a k = .ok z) : kind z ∧ reading z = reading y + a * reading k := by
  obtain ⟨hscaled, hreading⟩ := h.scale a hk
  rw [← hreading]
  exact h.add hy hscaled hz

/-- A number is a reading of itself. -/
theorem linearOn_number : LinearOn (fun _ : ℚ => True) id where
  add _ _ hz := by
    cases hz
    exact ⟨trivial, rfl⟩
  scale _ _ _ := ⟨trivial, rfl⟩

/-- A component is a reading of a list. -/
theorem linearOn_component (n i : ℕ) :
    LinearOn (fun y : List ℚ => y.length = n) fun y => y.getD i 0 where
  add {x y z} hx hy hz := by
    have hsum : addComponents x y = .ok (List.zipWith (· + ·) x y) := by
      unfold addComponents
      rw [if_pos (hx.trans hy.symm)]
    cases hz.symm.trans hsum
    have hlength : (List.zipWith (· + ·) x y).length = n := by simp [hx, hy]
    refine ⟨hlength, ?_⟩
    rcases Nat.lt_or_ge i n with hi | hi
    · simp [hx, hy, hi]
    · rw [List.getD_eq_default _ _ (by omega), List.getD_eq_default _ _ (by omega),
        List.getD_eq_default _ _ (by omega), add_zero]
  scale a {x} hx := by
    have hlength : (State.scale a x).length = n := (List.length_map _).trans hx
    refine ⟨hlength, ?_⟩
    rcases Nat.lt_or_ge i n with hi | hi
    · show (x.map (a * ·)).getD i 0 = _
      simp [hx, hi]
    · rw [List.getD_eq_default _ _ (by omega), List.getD_eq_default _ _ (by omega), mul_zero]

/-- A list of numbers, weighed. -/
def weigh {n : ℕ} (weights : Fin n → ℚ) (y : List ℚ) : ℚ := ∑ i : Fin n, weights i * y.getD i 0

/-- A weighed sum of components is a reading of a list. -/
theorem linearOn_weigh {n : ℕ} (weights : Fin n → ℚ) :
    LinearOn (fun y : List ℚ => y.length = n) (weigh weights) where
  add {x y z} hx hy hz := by
    refine ⟨((linearOn_component n 0).add hx hy hz).1, ?_⟩
    unfold weigh
    rw [← Finset.sum_add_distrib]
    refine Finset.sum_congr rfl fun i _ => ?_
    rw [((linearOn_component n i).add hx hy hz).2, mul_add]
  scale a {x} hx := by
    refine ⟨((linearOn_component n 0).scale a hx).1, ?_⟩
    unfold weigh
    rw [Finset.mul_sum]
    refine Finset.sum_congr rfl fun i _ => ?_
    rw [((linearOn_component n i).scale a hx).2]
    ring

namespace MethodKey

/-! ## Steps -/

/-- The rule for integrals behind a formula. -/
def quadrature (w : ℚ → ℚ) (t h : ℚ) : MethodKey → ℚ
  | .euler => h * w t
  | .heun => h / 2 * (w t + w (t + h))
  | .rk4 => h / 6 * (w t + 4 * w (t + h / 2) + w (t + h))

section

variable {σ : Type} [State ℚ σ] {kind : σ → Prop} {reading : σ → ℚ} {f : Slope ℚ σ} {w : ℚ → ℚ}

/-- **A step adds what the rule makes of the derivative** of a reading. -/
theorem step_reading (hlinear : LinearOn kind reading)
    (hf : ∀ (t : ℚ) (y k : σ), kind y → f t y = .ok k → kind k ∧ reading k = w t)
    {key : MethodKey} {t t' h : ℚ} {y y' : σ} (hy : kind y)
    (hstep : key.step f t y h = .ok (t', y')) :
    kind y' ∧ reading y' = reading y + key.quadrature w t h := by
  have hstate : Prod.snd <$> (key.step : Formula ℚ σ) f t y h = .ok y' :=
    map_snd_eq_ok.mpr ⟨t', hstep⟩
  cases key with
  | euler =>
    rw [step, eulerStep_state, bind_eq_ok] at hstate
    obtain ⟨k, hk, hend⟩ := hstate
    obtain ⟨hkind, hreading⟩ := hf _ _ _ hy hk
    obtain ⟨hkind', hreading'⟩ := hlinear.advance hy hkind hend
    refine ⟨hkind', ?_⟩
    rw [hreading', hreading, quadrature]
  | heun =>
    simp only [step, heunStep_state, bind_eq_ok] at hstate
    obtain ⟨k1, hk1, predicted, hpredicted, k2, hk2, sum, hsum, hend⟩ := hstate
    obtain ⟨kind1, reading1⟩ := hf _ _ _ hy hk1
    obtain ⟨kind2, reading2⟩ := hf _ _ _ (hlinear.advance hy kind1 hpredicted).1 hk2
    obtain ⟨kindSum, readingSum⟩ := hlinear.add kind1 kind2 hsum
    obtain ⟨hkind, hreading⟩ := hlinear.advance hy kindSum hend
    refine ⟨hkind, ?_⟩
    have htwo : (2.0 : ℚ) = 2 := by norm_num
    rw [hreading, readingSum, reading1, reading2, htwo, quadrature]
  | rk4 =>
    simp only [step, rk4Step_state, bind_eq_ok] at hstate
    obtain ⟨k1, hk1, y1, hy1, k2, hk2, y2, hy2, k3, hk3, y3, hy3, k4, hk4, s2, hs2, s3, hs3,
      sum, hsum, hend⟩ := hstate
    obtain ⟨kind1, reading1⟩ := hf _ _ _ hy hk1
    obtain ⟨kind2, reading2⟩ := hf _ _ _ (hlinear.advance hy kind1 hy1).1 hk2
    obtain ⟨kind3, reading3⟩ := hf _ _ _ (hlinear.advance hy kind2 hy2).1 hk3
    obtain ⟨kind4, reading4⟩ := hf _ _ _ (hlinear.advance hy kind3 hy3).1 hk4
    -- adding a multiple of a slope is advancing by it
    obtain ⟨kindS2, readingS2⟩ := hlinear.advance kind1 kind2 hs2
    obtain ⟨kindS3, readingS3⟩ := hlinear.advance kindS2 kind3 hs3
    obtain ⟨kindSum, readingSum⟩ := hlinear.add kindS3 kind4 hsum
    obtain ⟨hkind, hreading⟩ := hlinear.advance hy kindSum hend
    refine ⟨hkind, ?_⟩
    have hhalf : (0.5 : ℚ) * h = h / 2 := by ring
    have htwo : (2.0 : ℚ) = 2 := by norm_num
    have hsix : (6.0 : ℚ) = 6 := by norm_num
    rw [hreading, readingSum, readingS3, readingS2, reading1, reading2, reading3, reading4, hhalf,
      htwo, hsix, quadrature]
    ring

end

end MethodKey

/-! ## Polynomials -/

/-- The integral of a polynomial from zero, as far as its first `n` coefficients go. -/
def primitive (q : ℚ[X]) (n : ℕ) (t : ℚ) : ℚ := ∑ i ∈ range n, q.coeff i * (t ^ (i + 1) / (i + 1))

/-- **The rule of a method is exact** for polynomials of a degree below its order. -/
theorem MethodKey.quadrature_eval (key : MethodKey) {q : ℚ[X]} (hq : q.natDegree < key.order)
    (t h : ℚ) : key.quadrature (fun x => q.eval x) t h =
      primitive q key.order (t + h) - primitive q key.order t := by
  unfold primitive
  cases key
  all_goals
    simp only [quadrature, eval_eq_sum_range' hq, order, Finset.sum_range_succ,
      Finset.sum_range_zero]
    norm_num
    ring

/-- The integral of a polynomial between rationals. -/
theorem integral_aeval {q : ℚ[X]} {n : ℕ} (hq : q.natDegree < n) (a b : ℚ) :
    ∫ x in (a : ℝ)..b, aeval x q = ((primitive q n b - primitive q n a : ℚ) : ℝ) := by
  have hsum : ∀ x : ℝ, aeval x q = ∑ i ∈ range n, (q.coeff i : ℝ) * x ^ i := by
    intro x
    rw [aeval_eq_sum_range' hq]
    exact Finset.sum_congr rfl fun i _ => Rat.smul_def _ _
  simp only [hsum]
  rw [intervalIntegral.integral_finsetSum fun i _ => by
    exact (continuous_const.mul (continuous_pow i)).intervalIntegrable _ _]
  unfold primitive
  rw [← Finset.sum_sub_distrib]
  push_cast
  refine Finset.sum_congr rfl fun i _ => ?_
  rw [intervalIntegral.integral_const_mul, integral_pow]
  ring

end InitialValue
