/-
  The order of the step formulas.

  On a linear system the exact solution after a step `h` is the power series of `h · A` applied to
  the state.  A formula of order `p` gives the terms of that series up to the power `p`, exactly,
  for every matrix, state and step.

  1. **Vectors** — `Represents`: states that are added and multiplied as the vectors they stand for.
     Numbers stand for themselves, and lists of `n` numbers for functions on `n` places.
  2. **The series** — `taylor`, cut off behind a power.
  3. **Steps** — `MethodKey.step_linear`: all three formulas on all states that stand for vectors.
  4. **Catalogs** — `step_taylor`: every method of both catalogs, with the order it is presented with.
-/
import InitialValue.Method.Catalog
import InitialValue.Proofs.Method.Componentwise
import Mathlib.Data.Matrix.Mul
import Mathlib.LinearAlgebra.Matrix.ToLin
import Mathlib.Tactic.Module
import Mathlib.Tactic.NormNum

namespace InitialValue

open Finset (range)

/-! ## States that stand for vectors -/

section Vectors

variable {V σ : Type} [AddCommGroup V] [Module ℚ V] [State ℚ σ]

/-- States are added and multiplied as the vectors that they stand for. -/
structure Represents (state : V → σ) : Prop where
  add (v w : V) : State.add ℚ (state v) (state w) = .ok (state (v + w))
  scale (a : ℚ) (v : V) : State.scale a (state v) = state (a • v)

theorem Represents.advance {state : V → σ} (hstate : Represents state) (v w : V) (a : ℚ) :
    MethodKey.advance (state v) a (state w) = .ok (state (v + a • w)) := by
  unfold MethodKey.advance
  rw [hstate.scale, hstate.add]

/-! ## The series -/

/-- The power series of `h · A` up to the power `p`, applied to a vector. -/
def taylor (A : Module.End ℚ V) (h : ℚ) (p : ℕ) (v : V) : V :=
  ∑ j ∈ range (p + 1), (h ^ j / j.factorial) • (A ^ j) v

theorem taylor_zero (A : Module.End ℚ V) (h : ℚ) (v : V) : taylor A h 0 v = v := by
  simp [taylor]

theorem taylor_succ (A : Module.End ℚ V) (h : ℚ) (p : ℕ) (v : V) :
    taylor A h (p + 1) v = taylor A h p v + (h ^ (p + 1) / (p + 1).factorial) • (A ^ (p + 1)) v :=
  Finset.sum_range_succ _ _

/-! ## Steps -/

namespace MethodKey

/-- The order of a formula. -/
def order : MethodKey → ℕ
  | .euler => 1
  | .heun => 2
  | .rk4 => 4

section Steps

variable {state : V → σ} (hstate : Represents state) {A : Module.End ℚ V} {f : Slope ℚ σ}
  (hf : ∀ t v, f t (state v) = .ok (state (A v))) (t h : ℚ) (v : V)

include hstate hf

theorem eulerStep_linear : eulerStep f t (state v) h = .ok (t + h, state (taylor A h 1 v)) := by
  have hsum : v + h • A v = taylor A h 1 v := by
    simp [taylor_succ, taylor_zero]
  unfold eulerStep
  simp only [hf, hstate.advance, bind, Except.bind]
  rw [hsum]
  rfl

theorem heunStep_linear : heunStep f t (state v) h = .ok (t + h, state (taylor A h 2 v)) := by
  have hsum : v + (h / 2.0) • (A v + A (v + h • A v)) = taylor A h 2 v := by
    simp only [taylor_succ, taylor_zero, map_add, map_smul, pow_succ, pow_zero,
      Module.End.mul_apply, Module.End.one_apply, Nat.factorial_succ, Nat.factorial_zero]
    norm_num
    module
  unfold heunStep
  simp only [hf, hstate.advance, hstate.add, bind, Except.bind]
  rw [hsum]
  rfl

theorem rk4Step_linear : rk4Step f t (state v) h = .ok (t + h, state (taylor A h 4 v)) := by
  have hsum : v + (h / 6.0) • (A v + (2.0 : ℚ) • A (v + (0.5 * h) • A v) +
      (2.0 : ℚ) • A (v + (0.5 * h) • A (v + (0.5 * h) • A v)) +
      A (v + h • A (v + (0.5 * h) • A (v + (0.5 * h) • A v)))) = taylor A h 4 v := by
    simp only [taylor_succ, taylor_zero, map_add, map_smul, pow_succ, pow_zero,
      Module.End.mul_apply, Module.End.one_apply, Nat.factorial_succ, Nat.factorial_zero]
    norm_num
    module
  unfold rk4Step
  simp only [hf, hstate.advance, hstate.add, hstate.scale, bind, Except.bind]
  rw [hsum]
  rfl

/-- **A step of a linear system is the power series up to the order of the formula.** -/
theorem step_linear (key : MethodKey) :
    key.step f t (state v) h = .ok (t + h, state (taylor A h key.order v)) := by
  cases key with
  | euler => exact eulerStep_linear hstate hf t h v
  | heun => exact heunStep_linear hstate hf t h v
  | rk4 => exact rk4Step_linear hstate hf t h v

end Steps

end MethodKey

end Vectors

/-! ## Numbers and lists of numbers -/

/-- A number stands for itself. -/
theorem represents_number : Represents (id : ℚ → ℚ) :=
  ⟨fun _ _ => rfl, fun _ _ => rfl⟩

/-- A list of `n` numbers stands for a function on `n` places. -/
theorem represents_list (n : ℕ) : Represents (List.ofFn : (Fin n → ℚ) → List ℚ) where
  add := add_ofFn
  scale := scale_ofFn

/-! ## Catalogs -/

/-- The order that a method is presented with is that of its formula. -/
theorem Method.order_eq {m : Method} (h : m ∈ Method.single ∨ m ∈ Method.coupled) :
    m.order = m.key.order := by
  simp only [Method.single, Method.coupled, List.mem_cons, List.not_mem_nil, or_false] at h
  rcases h with (rfl | rfl | rfl) | (rfl | rfl | rfl) <;> rfl

/-- **Every method has the order that it is presented with.**  On a linear system a step gives the
    time `t + h` and the power series of `h · A`, up to the order of the method, applied to the
    state: for every matrix `A`, state and signed step, and for a single equation with a number in
    place of the matrix. -/
theorem step_taylor {n : ℕ} (A : Matrix (Fin n) (Fin n) ℚ) {F : Slope ℚ (List ℚ)}
    (hF : ∀ t v, F t (List.ofFn v) = .ok (List.ofFn (A.mulVec v)))
    (a : ℚ) {f : Slope ℚ ℚ} (hf : ∀ t x, f t x = .ok (a * x)) (t h : ℚ) (v : Fin n → ℚ) (x : ℚ) :
    (∀ m ∈ Method.coupled, m.step F t (List.ofFn v) h =
      .ok (t + h, List.ofFn (∑ j ∈ range (m.order + 1), (h ^ j / j.factorial) • (A ^ j).mulVec v))) ∧
    (∀ m ∈ Method.single, m.step f t x h =
      .ok (t + h, ∑ j ∈ range (m.order + 1), h ^ j / j.factorial * (a ^ j * x))) := by
  constructor
  · intro m hm
    rw [Method.order_eq (Or.inr hm)]
    have hpower : ∀ j, (A.mulVecLin ^ j) v = (A ^ j).mulVec v := by
      intro j
      rw [← Matrix.toLin'_apply', ← Matrix.toLin'_pow, Matrix.toLin'_apply]
    refine ((MethodKey.step_linear (represents_list n) (A := A.mulVecLin) hF t h v m.key).trans ?_)
    simp only [taylor, hpower]
  · intro m hm
    rw [Method.order_eq (Or.inl hm)]
    have hpower : ∀ j, (LinearMap.mulLeft ℚ a ^ j) x = a ^ j * x := by
      intro j
      rw [LinearMap.pow_mulLeft, LinearMap.mulLeft_apply]
    refine ((MethodKey.step_linear represents_number (A := LinearMap.mulLeft ℚ a) hf t h x
      m.key).trans ?_)
    simp only [taylor, hpower, id, smul_eq_mul]

/-- The plane turning about its origin. -/
def turning : Slope ℚ (List ℚ) := fun _ y => .ok [y.getD 1 0, -y.getD 0 0]

theorem turning_ofFn (t : ℚ) (v : Fin 2 → ℚ) : turning t (List.ofFn v) =
    .ok (List.ofFn ((!![0, 1; -1, 0] : Matrix (Fin 2) (Fin 2) ℚ).mulVec v)) := by
  simp [turning, List.ofFn_succ, dotProduct, Fin.sum_univ_two]

theorem step_taylor_turning :
    (∀ m ∈ Method.coupled, m.step turning 0 (List.ofFn ![1, 0]) (-1 / 2) =
      .ok (0 + -1 / 2, List.ofFn (∑ j ∈ range (m.order + 1), ((-1 / 2 : ℚ) ^ j / j.factorial) •
        ((!![0, 1; -1, 0] : Matrix (Fin 2) (Fin 2) ℚ) ^ j).mulVec ![1, 0]))) ∧
    (∀ m ∈ Method.single, m.step (fun _ x => .ok (3 * x)) (0 : ℚ) 1 (-1 / 2) =
      .ok (0 + -1 / 2, ∑ j ∈ range (m.order + 1), (-1 / 2 : ℚ) ^ j / j.factorial * (3 ^ j * 1))) :=
  step_taylor !![0, 1; -1, 0] turning_ofFn 3 (fun _ _ => rfl) 0 (-1 / 2) ![1, 0] 1

end InitialValue
