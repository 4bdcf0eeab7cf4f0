/-
  Rounding to machine reals, and exact values.

  Every operation computes its result exactly, as a whole number times a power of two, and cuts it
  at the last place the format has for it.  So the result is off by at most one unit in that place,
  and it is exact when there is nothing to cut.

  1. **Cutting** — `place` is the last place, `cut` what is kept; `abs_cut_sub_le`, `cut_of_dvd`.
  2. **Numbers of the format** — `cut_faithful`: cutting passes no number that has the bits of the
     format, and `Fits.sub`: which differences are such numbers.
  3. **Numbers in parts** — `value_round` for an exact result with bits at the last place or below;
     `value_normalize` for any exact sum: its relative error is `2 ^ -52` at most.
-/
import InitialValue.Proofs.Binary.Order

namespace InitialValue.Binary

open Float.Model (UnpackedFloat Format totalExponent)
open Float.Model.UnpackedFloat

/-! ## Cutting -/

/-- The exponent of the last place that the format has for `m · 2 ^ e`. -/
def place (m : ℕ) (e : ℤ) : ℤ := max ((m.log2 : ℤ) + e - 52) (-1074)

theorem targetExponent_eq (m : ℕ) (e : ℤ) :
    Format.binary64.targetExponent (totalExponent m e) = place m e := by
  show max ((m.log2 : ℤ) + 1 + e - 53) (-1074) = max ((m.log2 : ℤ) + e - 52) (-1074)
  congr 1
  omega

/-- How many bits of `m · 2 ^ e` lie below the last place. -/
def excess (m : ℕ) (e : ℤ) : ℕ := (place m e - e).toNat

/-- The mantissa that is kept of `m · 2 ^ e`. -/
def cut (m : ℕ) (e : ℤ) : ℕ := (shiftToTargetExponent Format.binary64 m e .exact).1.roundedMantissa

theorem shift_eq (m : ℕ) (e : ℤ) : shiftToTargetExponent Format.binary64 m e .exact =
    (ExtendedMantissa.ofMantissaAndAccuracy m .exact >>> excess m e, e + excess m e) := by
  unfold shiftToTargetExponent shiftToExponent
  rw [targetExponent_eq]
  rfl

theorem mantissa_shiftRight (em : ExtendedMantissa) (k : ℕ) :
    (em >>> k).mantissa = em.mantissa / 2 ^ k := by
  induction k with
  | zero => rw [pow_zero, Nat.div_one]; rfl
  | succ k ih =>
    show (em >>> k).mantissa / 2 = _
    rw [ih, Nat.div_div_eq_div_mul, pow_succ]

/-- Nothing is lost where there is nothing to cut. -/
theorem shiftRight_of_dvd {m k : ℕ} (h : 2 ^ k ∣ m) :
    ExtendedMantissa.ofMantissaAndAccuracy m .exact >>> k = ⟨m / 2 ^ k, false, false⟩ := by
  induction k with
  | zero => rw [pow_zero, Nat.div_one]; rfl
  | succ k ih =>
    have hdvd : 2 ^ k ∣ m := (pow_dvd_pow 2 (Nat.le_succ k)).trans h
    have heven : m / 2 ^ k % 2 = 0 := by
      obtain ⟨n, rfl⟩ := h
      rw [pow_succ, mul_assoc, Nat.mul_div_cancel_left _ (Nat.two_pow_pos k)]
      exact Nat.mul_mod_right 2 n
    show (ExtendedMantissa.ofMantissaAndAccuracy m .exact >>> k).shiftRightOne = _
    rw [ih hdvd]
    unfold ExtendedMantissa.shiftRightOne
    dsimp only
    rw [heven, Nat.div_div_eq_div_mul, pow_succ]
    rfl

theorem roundedMantissa_bounds (em : ExtendedMantissa) :
    em.mantissa ≤ em.roundedMantissa ∧ em.roundedMantissa ≤ em.mantissa + 1 := by
  obtain ⟨m, r, s⟩ := em
  cases r <;> cases s <;> simp only [ExtendedMantissa.roundedMantissa, ExtendedMantissa.accuracy,
    Accuracy.roundToNearestEven] <;> omega

theorem cut_bounds (m : ℕ) (e : ℤ) :
    m / 2 ^ excess m e ≤ cut m e ∧ cut m e ≤ m / 2 ^ excess m e + 1 := by
  have hbounds := roundedMantissa_bounds (shiftToTargetExponent Format.binary64 m e .exact).1
  have hmantissa : (shiftToTargetExponent Format.binary64 m e .exact).1.mantissa =
      m / 2 ^ excess m e := by
    rw [shift_eq]
    exact mantissa_shiftRight _ _
  rwa [hmantissa] at hbounds

theorem cut_of_dvd {m : ℕ} {e : ℤ} (h : 2 ^ excess m e ∣ m) : cut m e = m / 2 ^ excess m e := by
  unfold cut
  rw [shift_eq]
  dsimp only
  rw [shiftRight_of_dvd h]
  rfl

theorem excess_of_le {m : ℕ} {e : ℤ} (h : place m e ≤ e) : excess m e = 0 := by
  unfold excess
  omega

/-- Cutting keeps 53 bits, up to a carry. -/
theorem cut_le (m : ℕ) (e : ℤ) : cut m e ≤ 2 ^ 53 := by
  have hlt : m / 2 ^ excess m e < 2 ^ 53 := by
    rw [Nat.div_lt_iff_lt_mul (Nat.two_pow_pos _), ← pow_add]
    have hexcess : m.log2 + 1 ≤ 53 + excess m e := by
      unfold excess place
      omega
    exact lt_of_lt_of_le Nat.lt_log2_self (Nat.pow_le_pow_right (by decide) hexcess)
  have hbounds := (cut_bounds m e).2
  omega

/-- Above the last place of all, there are 53 bits to keep. -/
theorem full_of_place {m : ℕ} {e : ℤ} (hm : m ≠ 0) (he : e ≤ place m e)
    (hplace : place m e ≠ -1074) : 2 ^ 52 ≤ m / 2 ^ excess m e := by
  rw [Nat.le_div_iff_mul_le (Nat.two_pow_pos _), ← pow_add]
  have hexcess : 52 + excess m e = m.log2 := by
    unfold excess
    unfold place at hplace he ⊢
    omega
  rw [hexcess]
  exact Nat.log2_self_le hm

/-- Cutting keeps 53 bits, or the last place is the last one of all. -/
theorem le_cut {m : ℕ} {e : ℤ} (hm : m ≠ 0) (he : e ≤ place m e) :
    2 ^ 52 ≤ cut m e ∨ place m e = -1074 := by
  by_cases hlast : place m e = -1074
  · exact Or.inr hlast
  · exact Or.inl ((full_of_place hm he hlast).trans (cut_bounds m e).1)

theorem value_excess {m : ℕ} {e : ℤ} (he : e ≤ place m e) :
    (2 : ℚ) ^ place m e = 2 ^ excess m e * 2 ^ e := by
  rw [← zpow_natCast, ← zpow_add₀ two_ne_zero]
  congr 1
  unfold excess
  omega

/-- **Cutting is off by one unit at most.** -/
theorem abs_cut_sub_le {m : ℕ} {e : ℤ} (he : e ≤ place m e) :
    |(cut m e : ℚ) * 2 ^ place m e - m * 2 ^ e| ≤ 2 ^ place m e := by
  obtain ⟨hlow, hhigh⟩ := cut_bounds m e
  have hdiv := Nat.div_add_mod m (2 ^ excess m e)
  have hmod := Nat.mod_lt m (Nat.two_pow_pos (excess m e))
  have hle : cut m e * 2 ^ excess m e ≤ m + 2 ^ excess m e :=
    calc cut m e * 2 ^ excess m e ≤ (m / 2 ^ excess m e + 1) * 2 ^ excess m e :=
          Nat.mul_le_mul_right _ hhigh
      _ = 2 ^ excess m e * (m / 2 ^ excess m e) + 2 ^ excess m e := by ring
      _ ≤ m + 2 ^ excess m e := by omega
  have hge : m ≤ cut m e * 2 ^ excess m e + 2 ^ excess m e :=
    calc m ≤ 2 ^ excess m e * (m / 2 ^ excess m e) + 2 ^ excess m e := by omega
      _ = m / 2 ^ excess m e * 2 ^ excess m e + 2 ^ excess m e := by ring
      _ ≤ cut m e * 2 ^ excess m e + 2 ^ excess m e :=
          Nat.add_le_add_right (Nat.mul_le_mul_right _ hlow) _
  have hle' : (cut m e : ℚ) * 2 ^ excess m e ≤ m + 2 ^ excess m e := by exact_mod_cast hle
  have hge' : (m : ℚ) ≤ cut m e * 2 ^ excess m e + 2 ^ excess m e := by exact_mod_cast hge
  have hpos : (0 : ℚ) < 2 ^ e := by positivity
  rw [value_excess he, ← mul_assoc, ← sub_mul, abs_mul, abs_of_pos hpos]
  refine mul_le_mul_of_nonneg_right (abs_le.mpr ⟨?_, ?_⟩) hpos.le <;> linarith

/-- Cutting is exact where there is nothing to cut. -/
theorem value_cut_of_dvd {m : ℕ} {e : ℤ} (he : e ≤ place m e) (h : 2 ^ excess m e ∣ m) :
    (cut m e : ℚ) * 2 ^ place m e = m * 2 ^ e := by
  rw [cut_of_dvd h, value_excess he, ← mul_assoc]
  congr 1
  exact_mod_cast Nat.div_mul_cancel h

/-! ## Numbers of the format -/

/-- A number with the bits that the format has. -/
def Fits (r : ℚ) : Prop := ∃ m g : ℤ, |m| < 2 ^ 53 ∧ -1074 ≤ g ∧ r = m * 2 ^ g

theorem Fits.neg {r : ℚ} (h : Fits r) : Fits (-r) := by
  obtain ⟨m, g, hm, hg, rfl⟩ := h
  exact ⟨-m, g, by rwa [abs_neg], hg, by push_cast; ring⟩

theorem fits_whole {n : ℤ} (h : |n| < 2 ^ 53) : Fits n :=
  ⟨n, 0, h, by norm_num, by rw [zpow_zero, mul_one]⟩

theorem fits_zero : Fits 0 := fits_whole (n := 0) (by norm_num)

/-- **What two numbers of the format differ in** fits when it is no more than either. -/
theorem Fits.sub {a b : ℚ} (ha : Fits a) (hb : Fits b) (hle : |a - b| ≤ |a|) (hle' : |a - b| ≤ |b|) :
    Fits (a - b) := by
  obtain ⟨m, g, hm, hg, rfl⟩ := ha
  obtain ⟨n, k, hn, hk, rfl⟩ := hb
  -- in units of the last place of one of them, the difference is a whole number no larger than it
  have hunits : ∀ {m n g k d : ℤ}, |m| < 2 ^ 53 → -1074 ≤ g → g ≤ k →
      ((d : ℚ) = m - n * 2 ^ (k - g)) → |(m : ℚ) * 2 ^ g - n * 2 ^ k| ≤ |(m : ℚ) * 2 ^ g| →
      Fits (m * 2 ^ g - n * 2 ^ k) := by
    intro m n g k d hm hg hgk hd hle
    have hpos : (0 : ℚ) < 2 ^ g := by positivity
    have heq : (m : ℚ) * 2 ^ g - n * 2 ^ k = d * 2 ^ g := by
      rw [hd, sub_mul, mul_assoc, ← zpow_add₀ two_ne_zero, sub_add_cancel]
    rw [heq, abs_mul, abs_mul, abs_of_pos hpos] at hle
    have hdm : |d| ≤ |m| := by exact_mod_cast le_of_mul_le_mul_right hle hpos
    exact ⟨d, g, hdm.trans_lt hm, hg, heq⟩
  have hpower : ∀ {k g : ℤ}, g ≤ k → ((2 ^ (k - g).toNat : ℤ) : ℚ) = 2 ^ (k - g) := by
    intro k g hgk
    rw [Int.cast_pow, Int.cast_ofNat, ← zpow_natCast, Int.toNat_of_nonneg (by omega)]
  rcases le_total g k with hgk | hgk
  · refine hunits (d := m - n * 2 ^ (k - g).toNat) hm hg hgk ?_ hle
    rw [Int.cast_sub, Int.cast_mul, hpower hgk]
  · have hflip : Fits (n * 2 ^ k - m * 2 ^ g) := by
      refine hunits (d := n - m * 2 ^ (g - k).toNat) hn hk hgk ?_ (by rwa [abs_sub_comm])
      rw [Int.cast_sub, Int.cast_mul, hpower hgk]
    rw [← neg_sub]
    exact hflip.neg

/-- Rounding `v` to `c` passes no number of the format. -/
def Faithful (c v : ℚ) : Prop := ∀ r, Fits r → (r ≤ v → r ≤ c) ∧ (v ≤ r → c ≤ r)

namespace Faithful

variable {c v : ℚ}

theorem refl (v : ℚ) : Faithful v v := fun _ _ => ⟨id, id⟩

theorem neg (h : Faithful c v) : Faithful (-c) (-v) := by
  intro r hr
  obtain ⟨hlow, hhigh⟩ := h (-r) hr.neg
  constructor <;> intro hle
  · linarith [hhigh (by linarith)]
  · linarith [hlow (by linarith)]

end Faithful

/-- What is kept of a mantissa passes no whole number of last places. -/
theorem le_cut_of_mul_le {m : ℕ} {e j : ℤ} (h : j * 2 ^ excess m e ≤ m) : j ≤ cut m e := by
  have hdiv : j ≤ (m : ℤ) / 2 ^ excess m e := (Int.le_ediv_iff_mul_le (by positivity)).mpr h
  have hcast : ((m / 2 ^ excess m e : ℕ) : ℤ) ≤ cut m e := by exact_mod_cast (cut_bounds m e).1
  push_cast at hcast
  exact hdiv.trans hcast

theorem cut_le_of_le_mul {m : ℕ} {e j : ℤ} (h : (m : ℤ) ≤ j * 2 ^ excess m e) :
    (cut m e : ℤ) ≤ j := by
  have hpow : (0 : ℤ) < 2 ^ excess m e := by positivity
  by_cases hdvd : 2 ^ excess m e ∣ m
  · rw [cut_of_dvd hdvd]
    push_cast
    exact Int.ediv_le_of_le_mul hpow h
  · have hlt : (m : ℤ) < j * 2 ^ excess m e := by
      refine lt_of_le_of_ne h fun heq => hdvd ?_
      have hz : (2 ^ excess m e : ℤ) ∣ m := ⟨j, by rw [heq, mul_comm]⟩
      exact_mod_cast hz
    have hdiv : (m : ℤ) / 2 ^ excess m e < j := Int.ediv_lt_of_lt_mul hpow hlt
    have hcast : (cut m e : ℤ) ≤ ((m / 2 ^ excess m e : ℕ) : ℤ) + 1 := by
      exact_mod_cast (cut_bounds m e).2
    push_cast at hcast
    omega

/-- **Rounding to a whole number of last places** passes no number of the format if it passes no
    other whole number of them and there are 53 bits above: a number of the format with a higher
    exponent is such a whole number, and one with a lower exponent is less than what is rounded. -/
theorem faithful_of_places {k : ℕ} {p : ℤ} {v : ℚ} (hfull : 2 ^ 52 * 2 ^ p ≤ v ∨ p = -1074)
    (hlow : ∀ j : ℤ, j * 2 ^ p ≤ v → j ≤ k) (hhigh : ∀ j : ℤ, v ≤ j * 2 ^ p → k ≤ j) :
    Faithful (k * 2 ^ p) v := by
  rintro r ⟨n, g, hn, hg, rfl⟩
  have hplace : (0 : ℚ) < 2 ^ p := by positivity
  rcases lt_or_ge g p with hlt | hge
  · -- below the last place, 53 bits do not reach what is rounded
    have hwhole : (2 : ℚ) ^ 52 * 2 ^ p ≤ v :=
      hfull.resolve_right (ne_of_gt (lt_of_le_of_lt hg hlt))
    have hsmall : (n : ℚ) * 2 ^ g < 2 ^ 52 * 2 ^ p := by
      have hn' : (n : ℚ) < 2 ^ 53 := by exact_mod_cast lt_of_le_of_lt (le_abs_self n) hn
      calc (n : ℚ) * 2 ^ g < 2 ^ 53 * 2 ^ g := mul_lt_mul_of_pos_right hn' (by positivity)
        _ = 2 ^ 52 * 2 ^ (g + 1) := by rw [zpow_add₀ two_ne_zero]; ring
        _ ≤ 2 ^ 52 * 2 ^ p :=
          mul_le_mul_of_nonneg_left (zpow_le_zpow_right₀ one_le_two (by omega)) (by positivity)
    have hkept : (2 : ℚ) ^ 52 * 2 ^ p ≤ k * 2 ^ p := by
      have hle : (2 ^ 52 : ℤ) ≤ k := hlow _ (by push_cast; exact hwhole)
      exact mul_le_mul_of_nonneg_right (by exact_mod_cast hle) hplace.le
    constructor <;> intro <;> linarith
  · -- from the last place on, it is compared in units of it
    obtain ⟨j, hj⟩ : ∃ j : ℤ, (n : ℚ) * 2 ^ g = j * 2 ^ p := by
      refine ⟨n * 2 ^ (g - p).toNat, ?_⟩
      rw [Int.cast_mul, Int.cast_pow, Int.cast_ofNat, ← zpow_natCast,
        Int.toNat_of_nonneg (by omega), mul_assoc, ← zpow_add₀ two_ne_zero, sub_add_cancel]
    rw [hj]
    constructor <;> intro hle
    · refine mul_le_mul_of_nonneg_right ?_ hplace.le
      exact_mod_cast hlow j hle
    · refine mul_le_mul_of_nonneg_right ?_ hplace.le
      exact_mod_cast hhigh j hle

/-- A whole number of last places, in units of the last bit that is there. -/
theorem mul_place {m : ℕ} {e : ℤ} (he : e ≤ place m e) (j : ℚ) :
    j * 2 ^ place m e = j * 2 ^ excess m e * 2 ^ e := by
  rw [value_excess he, mul_assoc]

/-- Above the last place of all, a number with bits to cut has 53 places. -/
theorem full_value {m : ℕ} {e : ℤ} (hm : m ≠ 0) (he : e ≤ place m e) :
    (2 : ℚ) ^ 52 * 2 ^ place m e ≤ m * 2 ^ e ∨ place m e = -1074 := by
  by_cases hlast : place m e = -1074
  · exact Or.inr hlast
  · have hle : 2 ^ 52 * 2 ^ excess m e ≤ m :=
      (Nat.mul_le_mul_right _ (full_of_place hm he hlast)).trans (Nat.div_mul_le_self _ _)
    rw [mul_place he]
    exact Or.inl (mul_le_mul_of_nonneg_right (by exact_mod_cast hle) (by positivity))

/-- Cutting passes no number of the format. -/
theorem cut_faithful {m : ℕ} {e : ℤ} (hm : m ≠ 0) (he : e ≤ place m e) :
    Faithful (cut m e * 2 ^ place m e) (m * 2 ^ e) := by
  have hunit : (0 : ℚ) < 2 ^ e := by positivity
  refine faithful_of_places (full_value hm he) (fun j hle => ?_) (fun j hle => ?_)
  · rw [mul_place he] at hle
    exact le_cut_of_mul_le (by exact_mod_cast le_of_mul_le_mul_right hle hunit)
  · rw [mul_place he] at hle
    exact cut_le_of_le_mul (by exact_mod_cast le_of_mul_le_mul_right hle hunit)

/-! ## Numbers in parts -/

theorem shift_small {m : ℕ} {e : ℤ} (h : place m e ≤ e) :
    shiftToTargetExponent Format.binary64 m e .exact = (⟨m, false, false⟩, e) := by
  rw [shift_eq, excess_of_le h]
  simp [HShiftRight.hShiftRight, Nat.repeat, ExtendedMantissa.ofMantissaAndAccuracy]

/-- What is kept of a cut mantissa: all of it, or half of it after a carry. -/
theorem shift_cut {r : ℕ} {t : ℤ} (hr : r ≤ 2 ^ 53) (ht : -1074 ≤ t) :
    shiftToTargetExponent Format.binary64 r t .exact =
      if r < 2 ^ 53 then (⟨r, false, false⟩, t) else (⟨2 ^ 52, false, false⟩, t + 1) := by
  split_ifs with hlt
  · have hlog : r.log2 ≤ 52 := by
      by_cases h0 : r = 0
      · rw [h0]; decide
      · exact Nat.lt_succ_iff.mp ((Nat.log2_lt h0).mpr hlt)
    exact shift_small (by unfold place; omega)
  · obtain rfl : r = 2 ^ 53 := by omega
    have hcarry : place (2 ^ 53) t = t + 1 := by
      unfold place
      rw [Nat.log2_two_pow]
      push_cast
      omega
    have hexcess : excess (2 ^ 53) t = 1 := by
      unfold excess
      rw [hcarry]
      omega
    rw [shift_eq, hexcess]
    rfl

/-- Rounding keeps what is cut, and carries when that has become too long. -/
theorem roundWithAccuracy_eq (s : Sign) {m : ℕ} {e : ℤ} (he : e ≤ place m e) :
    roundWithAccuracy Format.binary64 s m e .exact =
      if h : cut m e = 0 then .zero s
      else if cut m e < 2 ^ 53 then .finite s (cut m e) (place m e) (Nat.pos_of_ne_zero h)
      else .finite s (2 ^ 52) (place m e + 1) (by decide) := by
  have hplace : e + (excess m e : ℤ) = place m e := by
    unfold excess
    omega
  have hcut : (ExtendedMantissa.ofMantissaAndAccuracy m .exact >>> excess m e).roundedMantissa =
      cut m e := by
    unfold cut
    rw [shift_eq]
  have hmin : -1074 ≤ place m e := le_max_right _ _
  have hshift := shift_cut (cut_le m e) hmin
  unfold roundWithAccuracy
  simp only [shift_eq m e, hplace, hcut, hshift]
  rcases Nat.lt_or_ge (cut m e) (2 ^ 53) with hlt | hge
  · simp only [hlt, if_true]
  · have hne : cut m e ≠ 0 := by omega
    simp only [not_lt.mpr hge, if_false, hne, dite_false]
    rfl

theorem log2_mul_two_pow {m : ℕ} (hm : m ≠ 0) (k : ℕ) : (m * 2 ^ k).log2 = m.log2 + k := by
  rw [Nat.log2_eq_iff (mul_ne_zero hm (by positivity)), pow_add, add_right_comm, pow_add]
  exact ⟨Nat.mul_le_mul_right _ (Nat.log2_self_le hm),
    Nat.mul_lt_mul_of_pos_right Nat.lt_log2_self (by positivity)⟩

theorem value_packed {u : UnpackedFloat} (hu : Canonical u) : value? (packed u) = valueOf u := by
  rw [value?_eq, unpack_packed hu]

theorem valueOf_finite (s : Sign) (m : ℕ) (e : ℤ) (h : 0 < m) :
    valueOf (.finite s m e h) = some (((s.apply m : ℤ) : ℚ) * 2 ^ e) := rfl

/-- A sign as a factor. -/
def factor : Sign → ℚ
  | .positive => 1
  | .negative => -1

theorem apply_mul (s : Sign) (m : ℕ) (x : ℚ) :
    ((s.apply m : ℤ) : ℚ) * x = factor s * (m * x) := by
  cases s <;> simp [Sign.apply, factor]

/-- The value of a rounded number in parts that has a last place to be rounded at. -/
theorem value_round_of_place (s : Sign) {m : ℕ} {e : ℤ} (hm : m ≠ 0) (he : e ≤ place m e)
    (hlast : place m e ≤ 970 ∨ place m e = 971 ∧ cut m e < 2 ^ 53) :
    value? (packed (roundWithAccuracy Format.binary64 s m e .exact)) =
      some (factor s * (cut m e * 2 ^ place m e)) := by
  have hmin : -1074 ≤ place m e := le_max_right _ _
  have hfull := le_cut hm he
  have hle := cut_le m e
  rw [roundWithAccuracy_eq s he]
  split_ifs with h0 hlt
  · rw [value_packed (u := .zero s) trivial, h0, Nat.cast_zero, zero_mul, mul_zero]
    rfl
  · have hcanonical : Canonical (.finite s (cut m e) (place m e) (Nat.pos_of_ne_zero h0)) :=
      ⟨hlt, hmin, by omega, hfull⟩
    rw [value_packed hcanonical, valueOf_finite, apply_mul]
  · have hcut : cut m e = 2 ^ 53 := by omega
    have hcanonical : Canonical (.finite s (2 ^ 52) (place m e + 1) (by decide)) :=
      ⟨by norm_num, by omega, by omega, Or.inl (le_refl _)⟩
    rw [value_packed hcanonical, valueOf_finite, apply_mul, hcut, zpow_add₀ two_ne_zero]
    congr 2
    push_cast
    ring

theorem place_zero {e : ℤ} (he : e ≤ -1074) : place 0 e = -1074 := by
  unfold place
  rw [Nat.log2_zero]
  omega

/-- The last place of a number that is not too large. -/
theorem place_le_of_lt {m : ℕ} {e : ℤ} (h : m ≠ 0 ∨ e ≤ -1074)
    (hmax : (m : ℚ) * 2 ^ e < 2 ^ (1023 : ℤ)) : place m e ≤ 970 := by
  rcases eq_or_ne m 0 with rfl | hm
  · rw [place_zero (h.resolve_left (not_not.mpr rfl))]
    norm_num
  · have hlog : (2 : ℚ) ^ ((m.log2 : ℤ) + e) < 2 ^ (1023 : ℤ) := by
      have hself : (2 : ℚ) ^ m.log2 ≤ m := by exact_mod_cast Nat.log2_self_le hm
      refine lt_of_le_of_lt ?_ hmax
      rw [zpow_add₀ two_ne_zero, zpow_natCast]
      exact mul_le_mul_of_nonneg_right hself (by positivity)
    have hexp := (zpow_lt_zpow_iff_right₀ (by norm_num : (1 : ℚ) < 2)).mp hlog
    unfold place
    omega

/-- **The value of a rounded number in parts** that is not too large. -/
theorem value_round (s : Sign) {m : ℕ} {e : ℤ} (hm : m ≠ 0) (he : e ≤ place m e)
    (hmax : (m : ℚ) * 2 ^ e < 2 ^ (1023 : ℤ)) :
    value? (packed (roundWithAccuracy Format.binary64 s m e .exact)) =
      some (factor s * (cut m e * 2 ^ place m e)) :=
  value_round_of_place s hm he (Or.inl (place_le_of_lt (Or.inl hm) hmax))

/-- The last place of a number that has all its bits is `2 ^ -52` of it at most. -/
theorem place_le {m : ℕ} {e : ℤ} (hm : m ≠ 0) (h : place m e = (m.log2 : ℤ) + e - 52) :
    (2 : ℚ) ^ place m e ≤ 2 ^ (-52 : ℤ) * (m * 2 ^ e) := by
  have hself : (2 : ℚ) ^ m.log2 ≤ m := by exact_mod_cast Nat.log2_self_le hm
  calc (2 : ℚ) ^ place m e = 2 ^ (-52 : ℤ) * (2 ^ m.log2 * 2 ^ e) := by
        rw [h, ← zpow_natCast, ← zpow_add₀ two_ne_zero, ← zpow_add₀ two_ne_zero]
        congr 1
        omega
    _ ≤ 2 ^ (-52 : ℤ) * (m * 2 ^ e) := by
        refine mul_le_mul_of_nonneg_left ?_ (by positivity)
        exact mul_le_mul_of_nonneg_right hself (by positivity)

/-- Cutting has a relative error of `2 ^ -52`, and one least machine real at most on top. -/
theorem abs_cut_sub_le_relative {m : ℕ} {e : ℤ} (hm : m ≠ 0) (he : e ≤ place m e) :
    |(cut m e : ℚ) * 2 ^ place m e - m * 2 ^ e| ≤
      2 ^ (-52 : ℤ) * (m * 2 ^ e) + 2 ^ (-1074 : ℤ) := by
  have hvalue : (0 : ℚ) ≤ 2 ^ (-52 : ℤ) * (m * 2 ^ e) := by positivity
  have hleast : (0 : ℚ) ≤ 2 ^ (-1074 : ℤ) := by positivity
  refine (abs_cut_sub_le he).trans ?_
  rcases max_choice ((m.log2 : ℤ) + e - 52) (-1074) with h | h
  · exact (place_le hm h).trans (le_add_of_nonneg_right hleast)
  · have hplace : place m e = -1074 := h
    rw [hplace]
    exact le_add_of_nonneg_left hvalue

/-! ## Sums -/

/-- Taking places below the last one changes nothing. -/
theorem value_decrease (m : ℕ) {e t : ℤ} (h : t ≤ e) :
    (decreaseExponent m e t).2 = t ∧ ((decreaseExponent m e t).1 : ℚ) * 2 ^ t = m * 2 ^ e := by
  have hexp : (decreaseExponent m e t).2 = t := by
    show e - ((e - t).toNat : ℤ) = t
    omega
  refine ⟨hexp, ?_⟩
  show ((m <<< (e - t).toNat : ℕ) : ℚ) * 2 ^ t = m * 2 ^ e
  rw [Nat.shiftLeft_eq, Nat.cast_mul, Nat.cast_pow, Nat.cast_ofNat, mul_assoc, ← zpow_natCast,
    ← zpow_add₀ two_ne_zero]
  congr 2
  omega

theorem round_eq (s : Sign) (m : ℕ) (e : ℤ) : round Format.binary64 s m e =
    roundWithAccuracy Format.binary64 s (decreaseExponent m e (place m e)).1
      (decreaseExponent m e (place m e)).2 .exact := by
  unfold UnpackedFloat.round
  rw [targetExponent_eq]

/-- A number with bits at the last place or below takes no more of them. -/
theorem round_of_place (s : Sign) {m : ℕ} {e : ℤ} (he : e ≤ place m e) :
    round Format.binary64 s m e = roundWithAccuracy Format.binary64 s m e .exact := by
  have hsame : decreaseExponent m e (place m e) = (m, e) := by
    unfold decreaseExponent
    rw [Int.toNat_of_nonpos (by omega)]
    simp
  rw [round_eq, hsame]

/-- Rounding a number whose last place is one of the format. -/
theorem value_roundAny (s : Sign) {m : ℕ} {e : ℤ} (hm : m ≠ 0) (he : -1074 ≤ e)
    (hmax : (m : ℚ) * 2 ^ e < 2 ^ (1023 : ℤ)) :
    ∃ c : ℚ, value? (packed (round Format.binary64 s m e)) = some (factor s * c) ∧
      |c - m * 2 ^ e| ≤ 2 ^ (-52 : ℤ) * (m * 2 ^ e) ∧ Faithful c (m * 2 ^ e) := by
  have hnonneg : (0 : ℚ) ≤ 2 ^ (-52 : ℤ) * (m * 2 ^ e) := by positivity
  rcases le_total e (place m e) with hle | hge
  · -- the last place is among the bits that are there, so they are cut at it
    rw [round_of_place s hle]
    refine ⟨_, value_round s hm hle hmax, ?_, cut_faithful hm hle⟩
    rcases max_choice ((m.log2 : ℤ) + e - 52) (-1074) with h | h
    · exact (abs_cut_sub_le hle).trans (place_le hm h)
    · have hplace : place m e = -1074 := h
      have hexcess : excess m e = 0 := excess_of_le (by omega)
      rw [value_cut_of_dvd hle (by rw [hexcess, pow_zero]; exact one_dvd m), sub_self, abs_zero]
      exact hnonneg
  · -- the number has room to spare, so nothing is cut
    rw [round_eq]
    obtain ⟨hexp, hvalue⟩ := value_decrease m hge
    have hmantissa : (decreaseExponent m e (place m e)).1 = m * 2 ^ (e - place m e).toNat := by
      show m <<< (e - place m e).toNat = _
      rw [Nat.shiftLeft_eq]
    rw [hexp]
    have hplace : place (decreaseExponent m e (place m e)).1 (place m e) = place m e := by
      rw [hmantissa]
      have hlog := log2_mul_two_pow hm (e - place m e).toNat
      unfold place at hge hlog ⊢
      rw [hlog]
      push_cast
      omega
    have hm' : (decreaseExponent m e (place m e)).1 ≠ 0 := by
      rw [hmantissa]
      exact mul_ne_zero hm (by positivity)
    generalize (decreaseExponent m e (place m e)).1 = m' at hvalue hm' hplace
    have hexcess : excess m' (place m e) = 0 := excess_of_le hplace.le
    have hexact := value_cut_of_dvd hplace.ge (by rw [hexcess, pow_zero]; exact one_dvd m')
    rw [hvalue] at hexact
    refine ⟨_, value_round s hm' hplace.ge (by rw [hvalue]; exact hmax), ?_⟩
    rw [hexact, sub_self, abs_zero]
    exact ⟨hnonneg, .refl _⟩

/-- **Normalizing** has a relative error of `2 ^ -52`, and passes no number of the format. -/
theorem value_normalize {m : ℤ} {e : ℤ} (s : Sign) (he : -1074 ≤ e)
    (hmax : |(m : ℚ) * 2 ^ e| < 2 ^ (1023 : ℤ)) :
    ∃ c, value? (packed (normalize Format.binary64 m e s)) = some c ∧
      |c - m * 2 ^ e| ≤ 2 ^ (-52 : ℤ) * |(m : ℚ) * 2 ^ e| ∧ Faithful c (m * 2 ^ e) := by
  have hpos : (0 : ℚ) < 2 ^ e := by positivity
  unfold UnpackedFloat.normalize
  rcases lt_trichotomy m 0 with hneg | rfl | hpos'
  · rw [Int.compare_eq_lt.mpr hneg]
    -- a negative number is the opposite of its magnitude, which is rounded
    have hcast : ((-m).toNat : ℚ) = -m := by exact_mod_cast Int.toNat_of_nonneg (by omega)
    have habs : |(m : ℚ) * 2 ^ e| = (-m).toNat * 2 ^ e := by
      have hm : (m : ℚ) < 0 := by exact_mod_cast hneg
      rw [abs_of_neg (mul_neg_of_neg_of_pos hm hpos), hcast, neg_mul]
    rw [habs] at hmax ⊢
    obtain ⟨c, hc, herror, hfaithful⟩ := value_roundAny .negative (by omega) he hmax
    rw [hcast] at herror hfaithful ⊢
    have heq : factor .negative * c - m * 2 ^ e = -(c - -m * 2 ^ e) := by
      unfold factor
      ring
    have hopposite := hfaithful.neg
    rw [neg_mul, neg_neg] at hopposite
    refine ⟨_, hc, ?_, ?_⟩
    · rw [heq, abs_neg]
      exact herror
    · rw [factor, neg_one_mul]
      exact hopposite
  · rw [Int.compare_eq_eq.mpr rfl]
    refine ⟨0, value_packed (u := .zero s) trivial, by simp, ?_⟩
    rw [Int.cast_zero, zero_mul]
    exact .refl 0
  · rw [Int.compare_eq_gt.mpr hpos']
    have hcast : (m.toNat : ℚ) = m := by exact_mod_cast Int.toNat_of_nonneg hpos'.le
    have habs : |(m : ℚ) * 2 ^ e| = m.toNat * 2 ^ e := by
      have hm : (0 : ℚ) < m := by exact_mod_cast hpos'
      rw [abs_of_pos (mul_pos hm hpos), hcast]
    rw [habs] at hmax ⊢
    obtain ⟨c, hc, herror, hfaithful⟩ := value_roundAny .positive (by omega) he hmax
    refine ⟨_, hc, ?_⟩
    rw [hcast] at herror hfaithful ⊢
    rw [factor, one_mul]
    exact ⟨herror, hfaithful⟩

end InitialValue.Binary
