/-
  The grid in machine reals.

  The times of a run are computed with roundings, and so is what is left of the domain at each of
  them.  For a domain that is neither huge nor tiny all of that is within a few roundings of the
  exact grid.

  1. **Exact values** — `Extent`: the ends and the step as rationals, what is left after a number of
     whole steps, and `Grid.Reads`, that they are the values of machine reals.
  2. **The grid** — `value_h`, `tolerance_value`, `time_follows`.
  3. **Both comparisons** — `remaining_value`, `landing_value`: what is left at a time, and what is
     left after one more step.
-/
import InitialValue.Proofs.Binary.Whole
import InitialValue.Proofs.Solver.ExactGrid

namespace InitialValue

open Binary (value? Near)

/-! ## Exact values of a domain -/

/-- The exact values of the ends of a domain and of a step. -/
structure Extent where
  t0 : ℚ
  tEnd : ℚ
  step : ℚ

namespace Extent

variable (v : Extent)

/-- The size of all there is. -/
def size : ℚ := |v.t0| + |v.tEnd| + v.step

/-- One rounding of something of that size. -/
def rounding : ℚ := 2 ^ (-52 : ℤ) * v.size

/-- The direction of the domain. -/
def way : ℚ := Grid.way v.t0 v.tEnd

/-- What is left of the domain after `k` whole steps. -/
def left (k : ℕ) : ℚ := |v.tEnd - v.t0| - k * v.step

/-- The time after `k` whole steps. -/
def time (k : ℕ) : ℚ := v.t0 + k * (v.way * v.step)

/-- How near to the end counts as there. -/
def tolerance : ℚ := 1e-9 * v.step

/-- A time is the one after `k` whole steps, up to roundings. -/
def Follows (k : ℕ) (t : Float) : Prop :=
  ∃ x, value? t = some x ∧ |x - v.time k| ≤ 10 * v.rounding

/-- What is left after `k` whole steps is so near to the tolerance that roundings decide. -/
def Grazes (k : ℕ) : Prop := |v.left k - v.tolerance| ≤ 24 * v.rounding

theorem way_mul_way : v.way * v.way = 1 := Grid.way_mul_way v.t0 v.tEnd

theorem abs_way_mul (x : ℚ) : |v.way * x| = |x| := by
  have habs : |v.way| = 1 := by
    unfold way Grid.way
    split <;> simp
  rw [abs_mul, habs, one_mul]

theorem step_le_size : v.step ≤ v.size := by
  have h0 := abs_nonneg v.t0
  have hEnd := abs_nonneg v.tEnd
  unfold size
  linarith

/-- An error relative to something of a few times the size is as many roundings. -/
theorem relative_le {x q : ℚ} (hx : |x| ≤ q * v.size) : 2 ^ (-52 : ℤ) * |x| ≤ q * v.rounding := by
  unfold rounding
  have hpos : (0 : ℚ) ≤ 2 ^ (-52 : ℤ) := by positivity
  calc 2 ^ (-52 : ℤ) * |x| ≤ 2 ^ (-52 : ℤ) * (q * v.size) := mul_le_mul_of_nonneg_left hx hpos
    _ = q * (2 ^ (-52 : ℤ) * v.size) := by ring

theorem way_mul_left (k : ℕ) : v.way * (v.tEnd - v.time k) = v.left k :=
  Grid.way_mul_remaining k

end Extent

namespace Number

theorem ofInt?_of_toReal {n : ℤ} {x : Float} (h : (Number.whole n : Number Float).toReal = .ok x) :
    Binary.ofInt? n = some x := by
  have helim : (Binary.ofInt? n).elim (.error .outOfRange : Except Foreign Float) .ok = .ok x := h
  cases hn : Binary.ofInt? n with
  | none =>
    rw [hn] at helim
    cases helim
  | some y =>
    rw [hn] at helim
    exact congrArg some (ok_eq_ok.mp helim)

end Number

namespace Grid

/-- A domain and a step of machine reals with their exact values, neither huge nor tiny. -/
structure Reads (t0 tEnd stepSize : Float) (v : Extent) : Prop where
  t0 : value? t0 = some v.t0
  tEnd : value? tEnd = some v.tEnd
  step : value? stepSize = some v.step
  size_le : v.size ≤ 2 ^ (1000 : ℤ)
  le_step : 2 ^ (-1000 : ℤ) ≤ v.step

namespace Reads

variable {t0 tEnd stepSize : Float} {v : Extent}

section

variable (h : Reads t0 tEnd stepSize v)

include h

theorem step_pos : 0 < v.step := lt_of_lt_of_le (by positivity) h.le_step

theorem tolerance_pos : 0 < v.tolerance := mul_pos (by norm_num) h.step_pos

theorem size_pos : 0 < v.size := lt_of_lt_of_le h.step_pos v.step_le_size

theorem rounding_pos : 0 < v.rounding := mul_pos (by positivity) h.size_pos

/-- A rounding is small against the size. -/
theorem rounding_le : 1024 * v.rounding ≤ v.size := by
  have hsmall : (1024 : ℚ) * 2 ^ (-52 : ℤ) ≤ 1 := by norm_num
  unfold Extent.rounding
  rw [← mul_assoc]
  exact mul_le_of_le_one_left h.size_pos.le hsmall

/-- The least machine real is less than a rounding. -/
theorem least_le : 2 ^ (-1074 : ℤ) ≤ v.rounding := by
  calc (2 : ℚ) ^ (-1074 : ℤ) ≤ 2 ^ (-52 : ℤ) * 2 ^ (-1000 : ℤ) := by
        rw [← zpow_add₀ two_ne_zero]
        exact zpow_le_zpow_right₀ (by norm_num) (by norm_num)
    _ ≤ v.rounding := mul_le_mul_of_nonneg_left (h.le_step.trans v.step_le_size) (by positivity)

/-- What is a few times the size is in range. -/
theorem in_range {x : ℚ} (hx : |x| ≤ 16 * v.size) : |x| < 2 ^ (1023 : ℤ) := by
  have hsize := h.size_le
  calc |x| ≤ 16 * 2 ^ (1000 : ℤ) := hx.trans (by linarith)
    _ = 2 ^ (1004 : ℤ) := by
        rw [show (1004 : ℤ) = 4 + 1000 from rfl, zpow_add₀ two_ne_zero]
        norm_num
    _ < 2 ^ (1023 : ℤ) := zpow_lt_zpow_right₀ (by norm_num) (by norm_num)

theorem abs_ends : |v.t0| ≤ v.size ∧ |v.tEnd| ≤ v.size := by
  have h0 := abs_nonneg v.t0
  have hEnd := abs_nonneg v.tEnd
  have hstep := h.step_pos
  unfold Extent.size
  constructor <;> linarith

theorem abs_steps (k : ℕ) : |k * (v.way * v.step)| = k * v.step := by
  rw [mul_left_comm, v.abs_way_mul, abs_of_nonneg]
  exact mul_nonneg (Nat.cast_nonneg k) h.step_pos.le

/-! ### Operations -/

section

variable {x y : Float} {a b q : ℚ} (ha : value? x = some a) (hb : value? y = some b) (hq : q ≤ 15)

include ha hb hq

/-- A sum of a few times the size is off by as many roundings. -/
theorem add_value (hle : |a + b| ≤ q * v.size) :
    ∃ c, value? (x + y) = some c ∧ |c - (a + b)| ≤ q * v.rounding := by
  have hmax : |a + b| ≤ 16 * v.size :=
    hle.trans (mul_le_mul_of_nonneg_right (by linarith) h.size_pos.le)
  obtain ⟨c, hc, hnear, -⟩ := Binary.value_add ha hb (h.in_range hmax)
  exact ⟨c, hc, hnear.trans (v.relative_le hle)⟩

/-- So is a difference. -/
theorem sub_value (hle : |a - b| ≤ q * v.size) :
    ∃ c, value? (x - y) = some c ∧ |c - (a - b)| ≤ q * v.rounding := by
  have hmax : |a - b| ≤ 16 * v.size :=
    hle.trans (mul_le_mul_of_nonneg_right (by linarith) h.size_pos.le)
  obtain ⟨c, hc, hnear, -⟩ := Binary.value_sub ha hb (h.in_range hmax)
  exact ⟨c, hc, hnear.trans (v.relative_le hle)⟩

/-- A product may be off by one more, because it can be too small to be told apart. -/
theorem mul_value (hle : |a * b| ≤ q * v.size) :
    ∃ c, value? (x * y) = some c ∧ |c - a * b| ≤ (q + 1) * v.rounding := by
  have hmax : |a * b| ≤ 16 * v.size :=
    hle.trans (mul_le_mul_of_nonneg_right (by linarith) h.size_pos.le)
  obtain ⟨c, hc, hnear, -⟩ := Binary.value_mul ha hb (h.in_range hmax)
  refine ⟨c, hc, hnear.trans ?_⟩
  rw [add_mul, one_mul]
  exact add_le_add (v.relative_le hle) h.least_le

end

/-! ### The grid -/

/-- The direction of the grid as a factor. -/
theorem value_direction_mul {y : Float} {b : ℚ} (hy : value? y = some b) :
    value? ((Grid.of t0 tEnd stepSize).direction * y) = some (v.way * b) := by
  have hlt := Binary.lt_iff_value h.t0 h.tEnd
  show value? ((if Scalar.lt t0 tEnd = true then (1.0 : Float) else -1.0) * y) = _
  unfold Extent.way Grid.way
  split_ifs with hleft hright hright
  · rw [one_mul]
    exact Binary.value_one_mul hy
  · exact absurd (hlt.mp hleft) hright
  · exact absurd (hlt.mpr hright) hleft
  · rw [neg_one_mul]
    exact Binary.value_neg_one_mul hy

/-- The signed step. -/
theorem value_h : value? (Grid.of t0 tEnd stepSize).h = some (v.way * v.step) := by
  have habs := Binary.value_abs h.step
  rw [abs_of_pos h.step_pos] at habs
  exact h.value_direction_mul habs

omit h in
/-- The machine real that stands for a billionth. -/
theorem value_endTolerance : ∃ b : ℚ, value? (Grid.endTolerance : Float) = some b ∧ 0 < b ∧
    b ≤ 1 ∧ |b - 1e-9| ≤ 2 ^ (-52 : ℤ) := by
  refine ⟨4835703278458517 * 2 ^ (-82 : ℤ), by decide +kernel, by positivity, by norm_num, ?_⟩
  norm_num [abs_le]

/-- How near to the end counts as there, up to roundings. -/
theorem tolerance_value : ∃ τ, value? (Grid.of t0 tEnd stepSize).tolerance = some τ ∧
    |τ - v.tolerance| ≤ 4 * v.rounding := by
  have hpos := h.step_pos
  have hmagnitude : value? (Grid.of t0 tEnd stepSize).h.abs = some v.step := by
    have habs := Binary.value_abs h.value_h
    rwa [v.abs_way_mul, abs_of_pos hpos] at habs
  obtain ⟨b, hb, hb0, hb1, hnear⟩ := value_endTolerance
  have hproduct : |b * v.step| ≤ 1 * v.size := by
    rw [abs_of_pos (mul_pos hb0 hpos), one_mul]
    exact (mul_le_of_le_one_left hpos.le hb1).trans v.step_le_size
  obtain ⟨τ, hτ, herror⟩ := h.mul_value hb hmagnitude (by norm_num) hproduct
  refine ⟨τ, hτ, ?_⟩
  have hconstant : |b * v.step - v.tolerance| ≤ v.rounding := by
    unfold Extent.tolerance Extent.rounding
    rw [← sub_mul, abs_mul, abs_of_pos hpos]
    exact mul_le_mul hnear v.step_le_size hpos.le (by positivity)
  have htriangle := abs_sub_le τ (b * v.step) v.tolerance
  linarith [h.rounding_pos]

/-- **The times of the grid** are off by a few roundings. -/
theorem time_follows {k : ℕ} (hfar : k * v.step ≤ 2 * v.size) {r : Float}
    (hr : (Number.whole k : Number Float).toReal = .ok r) :
    v.Follows k (t0 + r * (Grid.of t0 tEnd stepSize).h) := by
  have hrounding := h.rounding_pos
  have hsmall := h.rounding_le
  obtain ⟨hends, -⟩ := h.abs_ends
  have hsteps := h.abs_steps k
  obtain ⟨c, hc, hnear, -⟩ := Binary.value_whole (Number.ofInt?_of_toReal hr)
  rw [Int.cast_natCast] at hnear
  -- the number of steps is rounded, then the product with the step, then the sum with the start
  have hcount : |c * (v.way * v.step) - k * (v.way * v.step)| ≤ 2 * v.rounding := by
    rw [← sub_mul, abs_mul]
    calc |c - k| * |v.way * v.step| ≤ 2 ^ (-52 : ℤ) * |(k : ℚ)| * |v.way * v.step| :=
          mul_le_mul_of_nonneg_right hnear (abs_nonneg _)
      _ = 2 ^ (-52 : ℤ) * |k * (v.way * v.step)| := by rw [mul_assoc, ← abs_mul]
      _ ≤ 2 * v.rounding := v.relative_le (hsteps.trans_le hfar)
  have hproduct : |c * (v.way * v.step)| ≤ 3 * v.size := by
    have htriangle := abs_sub_abs_le_abs_sub (c * (v.way * v.step)) (k * (v.way * v.step))
    linarith
  obtain ⟨p, hp, hperror⟩ := h.mul_value hc h.value_h (by norm_num) hproduct
  have hdistance : |p - k * (v.way * v.step)| ≤ 6 * v.rounding := by
    have htriangle := abs_sub_le p (c * (v.way * v.step)) (k * (v.way * v.step))
    linarith
  have hsum : |v.t0 + p| ≤ 4 * v.size := by
    have hp' := abs_sub_abs_le_abs_sub p (k * (v.way * v.step))
    have htriangle := abs_add_le v.t0 p
    linarith
  obtain ⟨x, hx, hxerror⟩ := h.add_value h.t0 hp (by norm_num) hsum
  refine ⟨x, hx, ?_⟩
  have heq : x - v.time k = x - (v.t0 + p) + (p - k * (v.way * v.step)) := by
    unfold Extent.time
    ring
  rw [heq]
  have htriangle := abs_add_le (x - (v.t0 + p)) (p - k * (v.way * v.step))
  linarith

/-- A time near the grid is not far from the end. -/
theorem distance_le {k : ℕ} {x : ℚ} (hnear : |x - v.time k| ≤ 10 * v.rounding)
    (hfar : k * v.step ≤ 2 * v.size) : |v.tEnd - x| ≤ 4 * v.size := by
  have hsmall := h.rounding_le
  have hrounding := h.rounding_pos
  have htime : |v.time k| ≤ |v.t0| + 2 * v.size := by
    have htriangle := abs_add_le v.t0 (k * (v.way * v.step))
    rw [h.abs_steps k] at htriangle
    exact htriangle.trans (by linarith)
  have htriangle := abs_sub_le v.tEnd (v.time k) x
  have hends := abs_sub v.tEnd (v.time k)
  rw [abs_sub_comm (v.time k) x] at htriangle
  have hsum : |v.t0| + |v.tEnd| ≤ v.size := by
    unfold Extent.size
    linarith [h.step_pos]
  linarith

/-- **What is left** at a time near the grid. -/
theorem remaining_value {t : Float} {k : ℕ} (ht : v.Follows k t) (hfar : k * v.step ≤ 2 * v.size) :
    ∃ r, value? (tEnd - t) = some r ∧ |r| ≤ 5 * v.size ∧
      |v.way * r - v.left k| ≤ 14 * v.rounding := by
  obtain ⟨x, hx, hnear⟩ := ht
  have hsmall := h.rounding_le
  have hrounding := h.rounding_pos
  have hdifference := h.distance_le hnear hfar
  obtain ⟨r, hr, herror⟩ := h.sub_value h.tEnd hx (by norm_num) hdifference
  refine ⟨r, hr, ?_, ?_⟩
  · have htriangle := abs_sub_abs_le_abs_sub r (v.tEnd - x)
    linarith
  · have heq : v.way * r - v.left k = v.way * (r - (v.tEnd - x) - (x - v.time k)) := by
      rw [← v.way_mul_left k]
      ring
    rw [heq, v.abs_way_mul]
    have htriangle := abs_sub (r - (v.tEnd - x)) (x - v.time k)
    linarith

/-- **What is left after one more step**, at a time near the grid. -/
theorem landing_value {t : Float} {k : ℕ} (ht : v.Follows k t) (hfar : k * v.step ≤ 2 * v.size) :
    ∃ q, value? ((Grid.of t0 tEnd stepSize).direction *
        (tEnd - t - (Grid.of t0 tEnd stepSize).h)) = some q ∧
      |q - v.left (k + 1)| ≤ 20 * v.rounding := by
  have hsize := h.size_pos
  have hsmall := h.rounding_le
  obtain ⟨r, hr, hrsize, hrerror⟩ := h.remaining_value ht hfar
  have hstep : |v.way * v.step| ≤ v.size := by
    rw [v.abs_way_mul, abs_of_pos h.step_pos]
    exact v.step_le_size
  have hdifference : |r - v.way * v.step| ≤ 6 * v.size := by
    have htriangle := abs_sub r (v.way * v.step)
    linarith
  obtain ⟨q, hq, herror⟩ := h.sub_value hr h.value_h (by norm_num) hdifference
  refine ⟨v.way * q, h.value_direction_mul hq, ?_⟩
  have heq : v.way * q - v.left (k + 1) =
      v.way * (q - (r - v.way * v.step)) + (v.way * r - v.left k) := by
    have hleft : v.left (k + 1) = v.left k - v.way * v.way * v.step := by
      rw [v.way_mul_way]
      unfold Extent.left
      push_cast
      ring
    rw [hleft]
    ring
  rw [heq]
  have htriangle := abs_add_le (v.way * (q - (r - v.way * v.step))) (v.way * r - v.left k)
  rw [v.abs_way_mul] at htriangle
  linarith

end

end Reads

end Grid

end InitialValue
