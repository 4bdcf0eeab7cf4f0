/-
  Step formulas in a mirror.

  When time runs the other way, a slope turns into its opposite.  A formula does not notice: with
  opposite slopes, an opposite step from the opposite time leads to the same state
  (`MethodKey.step_mirrored`), because slopes enter a state only with the step as a factor.

  What turning a state round has to be for that is `Turns`; numbers and lists of numbers are turned
  round by turning the sign.
-/
import InitialValue.Proofs.Method.Componentwise
import InitialValue.Proofs.Number.Rational

namespace InitialValue

/-! ## Turning states round -/

/-- Turning states round is undone by doing it again, makes up for the sign of a factor, and goes
    along with sums. -/
structure Turns {σ : Type} [State ℚ σ] (turn : σ → σ) : Prop where
  turn_turn (y : σ) : turn (turn y) = y
  scale (a : ℚ) (y : σ) : State.scale a (turn y) = turn (State.scale a y)
  scale_neg (a : ℚ) (y : σ) : State.scale (-a) (turn y) = State.scale a y
  add (x y : σ) : State.add ℚ (turn x) (turn y) = turn <$> State.add ℚ x y

theorem turns_number : Turns (fun x : ℚ => -x) where
  turn_turn := neg_neg
  scale a y := mul_neg a y
  scale_neg a y := neg_mul_neg a y
  add x y := congrArg Except.ok (neg_add x y).symm

theorem addComponents_neg (xs ys : List ℚ) :
    addComponents (xs.map fun x => -x) (ys.map fun x => -x) =
      (List.map fun x => -x) <$> addComponents xs ys := by
  unfold addComponents
  rw [List.length_map, List.length_map]
  by_cases hlength : xs.length = ys.length
  · rw [if_pos hlength, if_pos hlength]
    show Except.ok _ = Except.ok _
    rw [List.zipWith_map, List.map_zipWith]
    simp only [← neg_add]
  · rw [if_neg hlength, if_neg hlength]
    -- the lists differ in length, so one of them is repeated or they do not fit
    rcases xs with _ | ⟨x, _ | ⟨x', xs⟩⟩ <;> rcases ys with _ | ⟨y, _ | ⟨y', ys⟩⟩ <;>
      simp [Functor.map, Except.map, add_comm]

theorem turns_list : Turns (List.map fun x : ℚ => -x) where
  turn_turn y := by simp
  scale a y := by
    show (y.map (- ·)).map (a * ·) = (y.map (a * ·)).map (- ·)
    simp
  scale_neg a y := by
    show (y.map (- ·)).map (-a * ·) = y.map (a * ·)
    simp
  add := addComponents_neg

section

variable {σ : Type} [State ℚ σ] {turn : σ → σ}

theorem Turns.advance (hturn : Turns turn) (y k : σ) (a : ℚ) :
    MethodKey.advance y (-a) (turn k) = MethodKey.advance y a k := by
  unfold MethodKey.advance
  rw [hturn.scale_neg]

theorem Turns.add_ok (hturn : Turns turn) {x y z : σ} (h : State.add ℚ x y = .ok z) :
    State.add ℚ (turn x) (turn y) = .ok (turn z) := by
  rw [hturn.add, h]
  rfl

/-! ## Slopes and steps -/

/-- A slope and its mirror image: at the opposite time it answers with the opposite. -/
def Slope.Mirrors (turn : σ → σ) (f g : Slope ℚ σ) : Prop :=
  ∀ t y k, g t y = .ok k ↔ f (-t) y = .ok (turn k)

variable {f g : Slope ℚ σ}

theorem Slope.Mirrors.ok (h : Slope.Mirrors turn f g) (hturn : Turns turn) {t : ℚ} {y k : σ}
    (hk : f t y = .ok k) : g (-t) y = .ok (turn k) := by
  rw [h, neg_neg, hturn.turn_turn]
  exact hk

/-- Mirror images are mutual. -/
theorem Slope.Mirrors.symm (h : Slope.Mirrors turn f g) (hturn : Turns turn) :
    Slope.Mirrors turn g f := by
  intro t y k
  rw [h, neg_neg, hturn.turn_turn]

/-- **A step in a mirror** leads to the same state. -/
theorem MethodKey.step_mirrored (h : Slope.Mirrors turn f g) (hturn : Turns turn) {key : MethodKey}
    {t d : ℚ} {y y' : σ} (hstep : Prod.snd <$> key.step f t y d = .ok y') :
    Prod.snd <$> key.step g (-t) y (-d) = .ok y' := by
  cases key with
  | euler =>
    rw [step, eulerStep_state, bind_eq_ok] at hstep ⊢
    obtain ⟨k, hk, hend⟩ := hstep
    refine ⟨turn k, h.ok hturn hk, ?_⟩
    rw [hturn.advance]
    exact hend
  | heun =>
    simp only [step, heunStep_state, bind_eq_ok] at hstep ⊢
    obtain ⟨k1, hk1, predicted, hpredicted, k2, hk2, sum, hsum, hend⟩ := hstep
    refine ⟨turn k1, h.ok hturn hk1, predicted, ?_, turn k2, ?_, turn sum, hturn.add_ok hsum, ?_⟩
    · rw [hturn.advance]
      exact hpredicted
    · rw [← neg_add]
      exact h.ok hturn hk2
    · rw [neg_div, hturn.advance]
      exact hend
  | rk4 =>
    simp only [step, rk4Step_state, bind_eq_ok, mul_neg, neg_div, ← neg_add] at hstep ⊢
    obtain ⟨k1, hk1, y1, hy1, k2, hk2, y2, hy2, k3, hk3, y3, hy3, k4, hk4, s2, hs2, s3, hs3,
      sum, hsum, hend⟩ := hstep
    refine ⟨turn k1, h.ok hturn hk1, y1, ?_, turn k2, h.ok hturn hk2, y2, ?_,
      turn k3, h.ok hturn hk3, y3, ?_, turn k4, h.ok hturn hk4, turn s2, ?_, turn s3, ?_,
      turn sum, hturn.add_ok hsum, ?_⟩
    · rw [hturn.advance]
      exact hy1
    · rw [hturn.advance]
      exact hy2
    · rw [hturn.advance]
      exact hy3
    · rw [hturn.scale]
      exact hturn.add_ok hs2
    · rw [hturn.scale]
      exact hturn.add_ok hs3
    · rw [hturn.advance]
      exact hend

end

end InitialValue
