/-
  Step formulas when time is a component of the state.

  A system whose first component has the derivative one, and whose other components have the slope
  of another system at the time that the first one shows, makes the steps of that system: the first
  component moves on by the length of the step (`MethodKey.step_clocked`).  This holds because every
  formula takes a slope at the time that the coefficients of its state add up to.
-/
import InitialValue.Proofs.Method.Componentwise
import Mathlib.Algebra.Order.Ring.Rat
import Mathlib.Tactic.NormNum

namespace InitialValue

/-! ## States with a clock -/

section

variable {n : ℕ} {xs ys zs : List ℚ} {a b : ℚ}

/-- In a sum of states with clocks the clocks are added. -/
theorem add_clocked (hx : xs.length = n) (hy : ys.length = n) (h : State.add ℚ xs ys = .ok zs) :
    zs.length = n ∧ State.add ℚ (a :: xs) (b :: ys) = .ok ((a + b) :: zs) := by
  refine ⟨length_add hx hy h, ?_⟩
  rw [add_of_length hx hy, ok_eq_ok] at h
  have hx' : (a :: xs).length = n + 1 := by rw [List.length_cons, hx]
  have hy' : (b :: ys).length = n + 1 := by rw [List.length_cons, hy]
  rw [add_of_length hx' hy', List.zipWith_cons_cons, h]

/-- A state with a clock is moved on with its clock. -/
theorem advance_clocked {c : ℚ} (hx : xs.length = n) (hy : ys.length = n)
    (h : MethodKey.advance xs c ys = .ok zs) :
    zs.length = n ∧ MethodKey.advance (a :: xs) c (b :: ys) = .ok ((a + c * b) :: zs) :=
  add_clocked hx ((length_scale c ys).trans hy) h

/-- The sum of a state with a clock and a multiple of another. -/
theorem add_scale_clocked {c : ℚ} (hx : xs.length = n) (hy : ys.length = n)
    (h : State.add ℚ xs (State.scale c ys) = .ok zs) :
    zs.length = n ∧ State.add ℚ (a :: xs) (State.scale c (b :: ys)) = .ok ((a + c * b) :: zs) :=
  add_clocked hx ((length_scale c ys).trans hy) h

end

/-! ## Steps with a clock -/

/-- A slope `g` that takes the time of `f` from the first component, which itself has the derivative
    one.  The time that `g` is asked at does not count. -/
def Clocked (n : ℕ) (f g : Slope ℚ (List ℚ)) : Prop :=
  ∀ s x y k, y.length = n → f x y = .ok k → k.length = n ∧ g s (x :: y) = .ok (1 :: k)

/-- **A step with a clock** is the step without, and the clock moves on by the length of the step. -/
theorem MethodKey.step_clocked {n : ℕ} {f g : Slope ℚ (List ℚ)} (h : Clocked n f g)
    {key : MethodKey} {x d : ℚ} {y y' : List ℚ} (hy : y.length = n)
    (hstep : Prod.snd <$> key.step f x y d = .ok y') (s : ℚ) :
    y'.length = n ∧ Prod.snd <$> key.step g s (x :: y) d = .ok ((x + d) :: y') := by
  cases key with
  | euler =>
    simp only [step, eulerStep_state, bind_eq_ok] at hstep ⊢
    -- one slope, which the clock does not see
    obtain ⟨k, hk, hend⟩ := hstep
    obtain ⟨hlength, hk⟩ := h s x y k hy hk
    obtain ⟨hlength, hend⟩ := advance_clocked (a := x) (b := 1) hy hlength hend
    rw [mul_one] at hend
    exact ⟨hlength, _, hk, hend⟩
  | heun =>
    simp only [step, heunStep_state, bind_eq_ok] at hstep ⊢
    obtain ⟨k1, hk1, y1, hy1, k2, hk2, sum, hsum, hend⟩ := hstep
    obtain ⟨hk1n, hk1⟩ := h s x y k1 hy hk1
    -- the predicted clock shows the time of the second slope
    obtain ⟨hy1n, hy1⟩ := advance_clocked (a := x) (b := 1) hy hk1n hy1
    rw [mul_one] at hy1
    obtain ⟨hk2n, hk2⟩ := h (s + d) _ y1 k2 hy1n hk2
    obtain ⟨hsumn, hsum⟩ := add_clocked (a := 1) (b := 1) hk1n hk2n hsum
    obtain ⟨hlength, hend⟩ := advance_clocked (a := x) (b := 1 + 1) hy hsumn hend
    have hclock : x + d / 2.0 * (1 + 1) = x + d := by norm_num
    rw [hclock] at hend
    exact ⟨hlength, _, hk1, _, hy1, _, hk2, _, hsum, hend⟩
  | rk4 =>
    simp only [step, rk4Step_state, bind_eq_ok] at hstep ⊢
    obtain ⟨k1, hk1, y1, hy1, k2, hk2, y2, hy2, k3, hk3, y3, hy3, k4, hk4, s2, hs2, s3, hs3,
      sum, hsum, hend⟩ := hstep
    obtain ⟨hk1n, hk1⟩ := h s x y k1 hy hk1
    -- each predicted clock shows the time of the slope that is taken there
    obtain ⟨hy1n, hy1⟩ := advance_clocked (a := x) (b := 1) hy hk1n hy1
    rw [mul_one] at hy1
    obtain ⟨hk2n, hk2⟩ := h (s + 0.5 * d) _ y1 k2 hy1n hk2
    obtain ⟨hy2n, hy2⟩ := advance_clocked (a := x) (b := 1) hy hk2n hy2
    rw [mul_one] at hy2
    obtain ⟨hk3n, hk3⟩ := h (s + 0.5 * d) _ y2 k3 hy2n hk3
    obtain ⟨hy3n, hy3⟩ := advance_clocked (a := x) (b := 1) hy hk3n hy3
    rw [mul_one] at hy3
    obtain ⟨hk4n, hk4⟩ := h (s + d) _ y3 k4 hy3n hk4
    -- the weights of the four slopes add up to six
    obtain ⟨hs2n, hs2⟩ := add_scale_clocked (a := 1) (b := 1) hk1n hk2n hs2
    obtain ⟨hs3n, hs3⟩ := add_scale_clocked (a := 1 + 2.0 * 1) (b := 1) hs2n hk3n hs3
    obtain ⟨hsumn, hsum⟩ := add_clocked (a := 1 + 2.0 * 1 + 2.0 * 1) (b := 1) hs3n hk4n hsum
    obtain ⟨hlength, hend⟩ :=
      advance_clocked (a := x) (b := 1 + 2.0 * 1 + 2.0 * 1 + 1) hy hsumn hend
    have hclock : x + d / 6.0 * (1 + 2.0 * 1 + 2.0 * 1 + 1) = x + d := by norm_num
    rw [hclock] at hend
    exact ⟨hlength, _, hk1, _, hy1, _, hk2, _, hy2, _, hk3, _, hy3, _, hk4, _, hs2, _, hs3, _,
      hsum, hend⟩

end InitialValue
