/-
  The arithmetic of machine reals in exact values.

  A sum, difference or product of finite machine reals that is not too large is the exact one up to
  rounding: the error is at most `2 ^ -52` of the exact result, and for products one least machine
  real on top, and no number of the format is passed (`value_add`, `value_sub`, `value_mul`).
  Multiplying by one or minus one is exact (`value_one_mul`, `value_neg_one_mul`), and so is the
  magnitude.
-/
import InitialValue.Proofs.Binary.Rounding

namespace InitialValue.Binary

open Float.Model (UnpackedFloat Format)
open Float.Model.UnpackedFloat

/-- `c` is `v` up to a relative error of `2 ^ -52`. -/
def Near (c v : ℚ) : Prop := |c - v| ≤ 2 ^ (-52 : ℤ) * |v|

theorem Near.refl (v : ℚ) : Near v v := by
  unfold Near
  rw [sub_self, abs_zero]
  positivity

/-! ## Numbers in parts -/

theorem value_decrease_signed (s : Sign) (m : ℕ) {e t : ℤ} (h : t ≤ e) :
    ((s.apply (decreaseExponent m e t).1 : ℤ) : ℚ) * 2 ^ t = ((s.apply m : ℤ) : ℚ) * 2 ^ e := by
  rw [apply_mul, apply_mul, (value_decrease m h).2]

theorem value_add_parts {u v : UnpackedFloat} {a b : ℚ} (hu : Canonical u) (hv : Canonical v)
    (ha : valueOf u = some a) (hb : valueOf v = some b) (hmax : |a + b| < 2 ^ (1023 : ℤ)) :
    ∃ c, value? (packed (add Format.binary64 u v)) = some c ∧ Near c (a + b) ∧
      Faithful c (a + b) := by
  cases u with
  | infinity s => cases ha
  | notANumber => cases ha
  | zero s =>
    cases ha
    rw [zero_add]
    cases v with
    | infinity s' => cases hb
    | notANumber => cases hb
    | zero s' =>
      cases hb
      refine ⟨0, ?_, .refl 0, .refl 0⟩
      cases s <;> cases s' <;> exact value_packed (u := .zero _) trivial
    | finite s' m e h =>
      refine ⟨b, ?_, .refl b, .refl b⟩
      rw [← hb]
      exact value_packed hv
  | finite s m e h =>
    cases v with
    | infinity s' => cases hb
    | notANumber => cases hb
    | zero s' =>
      cases hb
      rw [add_zero]
      refine ⟨a, ?_, .refl a, .refl a⟩
      rw [← ha]
      exact value_packed hu
    | finite s' m' e' h' =>
      cases ha
      cases hb
      obtain ⟨-, he, -, -⟩ := hu
      obtain ⟨-, he', -, -⟩ := hv
      -- both are brought to the smaller exponent, where their sum is exact
      have hsum : ((s.apply (decreaseExponent m e (min e e')).1 +
            s'.apply (decreaseExponent m' e' (min e e')).1 : ℤ) : ℚ) * 2 ^ min e e' =
          ((s.apply m : ℤ) : ℚ) * 2 ^ e + ((s'.apply m' : ℤ) : ℚ) * 2 ^ e' := by
        rw [Int.cast_add, add_mul, value_decrease_signed s m (min_le_left e e'),
          value_decrease_signed s' m' (min_le_right e e')]
      rw [← hsum] at hmax ⊢
      exact value_normalize .positive (le_min he he') hmax

/-- Subtracting is adding the opposite. -/
theorem sub_eq_add_opposite (u v : UnpackedFloat) :
    sub Format.binary64 u v = add Format.binary64 u v.neg := by
  cases u with
  | notANumber => rfl
  | infinity s => cases v <;> rfl
  | zero s => cases v <;> rfl
  | finite s m e h =>
    cases v with
    | finite s' m' e' h' =>
      have hopposite : ∀ (i : ℤ) (k : ℕ), i - s'.apply k = i + (-s').apply k := by
        intro i k
        cases s' with
        | positive => exact Int.sub_eq_add_neg
        | negative => exact Int.sub_neg _ _
      exact congrArg (fun i => normalize Format.binary64 i (min e e') .positive) (hopposite _ _)
    | _ => rfl

theorem valueOf_neg {v : UnpackedFloat} {b : ℚ} (h : valueOf v = some b) :
    valueOf v.neg = some (-b) := by
  cases v with
  | infinity s => cases h
  | notANumber => cases h
  | zero s =>
    cases h
    rw [neg_zero]
    rfl
  | finite s m e hm =>
    cases h
    show some (((-s).apply m : ℤ) * 2 ^ e : ℚ) = _
    cases s with
    | positive =>
      show some (((-(m : ℤ) : ℤ) : ℚ) * 2 ^ e) = some (-(((m : ℤ) : ℚ) * 2 ^ e))
      push_cast
      rw [neg_mul]
    | negative =>
      show some (((m : ℤ) : ℚ) * 2 ^ e) = some (-(((-(m : ℤ) : ℤ) : ℚ) * 2 ^ e))
      push_cast
      rw [neg_mul, neg_neg]

theorem canonical_neg {v : UnpackedFloat} (h : Canonical v) : Canonical v.neg := by
  cases v <;> exact h

theorem factor_mul (s s' : Sign) : factor (s * s') = factor s * factor s' := by
  cases s <;> cases s' <;> show _ = _ * _ <;> norm_num [factor]

theorem abs_factor_mul (s : Sign) (x : ℚ) : |factor s * x| = |x| := by
  cases s <;> simp [factor]

/-- A product of numbers in lowest terms has no place to spare. -/
theorem le_place_mul {s s' : Sign} {m m' : ℕ} {e e' : ℤ} {h h'}
    (hu : Canonical (.finite s m e h)) (hv : Canonical (.finite s' m' e' h')) :
    e + e' ≤ place (m * m') (e + e') := by
  obtain ⟨-, -, -, hfull⟩ := hu
  obtain ⟨-, -, -, hfull'⟩ := hv
  have hlog : ∀ {k : ℕ}, 2 ^ 52 ≤ k → 52 ≤ k.log2 := by
    intro k hk
    exact (Nat.le_log2 (by omega)).mpr hk
  unfold place
  rcases hfull with hm | he
  · have hprod : 52 ≤ (m * m').log2 := hlog (hm.trans (Nat.le_mul_of_pos_right m h'))
    omega
  · rcases hfull' with hm' | he'
    · have hprod : 52 ≤ (m * m').log2 := hlog (hm'.trans (Nat.le_mul_of_pos_left m' h))
      omega
    · omega

theorem Faithful.factor_mul {c v : ℚ} (h : Faithful c v) (s : Sign) :
    Faithful (factor s * c) (factor s * v) := by
  cases s with
  | positive => rwa [factor, one_mul, one_mul]
  | negative => simpa only [factor, neg_one_mul] using h.neg

theorem value_mul_parts {u v : UnpackedFloat} {a b : ℚ} (hu : Canonical u) (hv : Canonical v)
    (ha : valueOf u = some a) (hb : valueOf v = some b) (hmax : |a * b| < 2 ^ (1023 : ℤ)) :
    ∃ c, value? (packed (mul Format.binary64 u v)) = some c ∧
      |c - a * b| ≤ 2 ^ (-52 : ℤ) * |a * b| + 2 ^ (-1074 : ℤ) ∧ Faithful c (a * b) := by
  have hzero : ∀ s, ∃ c, value? (packed (.zero s)) = some c ∧
      |c - 0| ≤ 2 ^ (-52 : ℤ) * |(0 : ℚ)| + 2 ^ (-1074 : ℤ) ∧ Faithful c 0 := by
    intro s
    refine ⟨0, value_packed (u := .zero s) trivial, ?_, .refl 0⟩
    rw [sub_self, abs_zero, mul_zero, zero_add]
    positivity
  cases u with
  | infinity s => cases ha
  | notANumber => cases ha
  | zero s =>
    cases ha
    rw [zero_mul]
    cases v with
    | infinity s' => cases hb
    | notANumber => cases hb
    | zero s' => exact hzero _
    | finite s' m e h => exact hzero _
  | finite s m e h =>
    cases v with
    | infinity s' => cases hb
    | notANumber => cases hb
    | zero s' =>
      cases hb
      rw [mul_zero]
      exact hzero _
    | finite s' m' e' h' =>
      cases ha
      cases hb
      have hm : m * m' ≠ 0 := (Nat.mul_pos h h').ne'
      -- the product of the mantissas is exact, and only its last places are cut
      have hprod : ((s.apply m : ℤ) : ℚ) * 2 ^ e * (((s'.apply m' : ℤ) : ℚ) * 2 ^ e') =
          factor (s * s') * ((m * m' : ℕ) * 2 ^ (e + e')) := by
        rw [apply_mul, apply_mul, factor_mul, zpow_add₀ two_ne_zero]
        push_cast
        ring
      have hpos : (0 : ℚ) ≤ (m * m' : ℕ) * 2 ^ (e + e') := by positivity
      rw [hprod, abs_factor_mul, abs_of_nonneg hpos] at hmax ⊢
      have hplace := le_place_mul hu hv
      refine ⟨_, value_round (s * s') hm hplace hmax, ?_, (cut_faithful hm hplace).factor_mul _⟩
      rw [← mul_sub, abs_factor_mul]
      exact abs_cut_sub_le_relative hm hplace

/-- A factor of one, in parts: there is nothing to cut of the product. -/
theorem value_mul_unit {v : UnpackedFloat} {b : ℚ} (s : Sign) (hv : Canonical v)
    (hb : valueOf v = some b) :
    value? (packed (mul Format.binary64 (.finite s (2 ^ 52) (-52) (by decide)) v)) =
      some (factor s * b) := by
  cases v with
  | infinity s' => cases hb
  | notANumber => cases hb
  | zero s' =>
    cases hb
    rw [mul_zero]
    exact value_packed (u := .zero _) trivial
  | finite s' m e h =>
    cases hb
    obtain ⟨hlt, hmin, hmax, hfull⟩ := hv
    have hm : 2 ^ 52 * m ≠ 0 := (Nat.mul_pos (by decide) h).ne'
    have hplace : place (2 ^ 52 * m) (-52 + e) = e := by
      have hlog : (2 ^ 52 * m).log2 = m.log2 + 52 := by
        rw [mul_comm, log2_mul_two_pow h.ne']
      unfold place
      rw [hlog]
      rcases hfull with hge | rfl
      · rw [log2_of_normal hge hlt]
        push_cast
        omega
      · have hlog' : m.log2 ≤ 52 := Nat.lt_succ_iff.mp ((Nat.log2_lt h.ne').mpr hlt)
        push_cast
        omega
    have hle : -52 + e ≤ place (2 ^ 52 * m) (-52 + e) := by omega
    -- what is cut are the zeros that the factor brings
    have hexcess : excess (2 ^ 52 * m) (-52 + e) = 52 := by
      unfold excess
      omega
    have hdvd : 2 ^ excess (2 ^ 52 * m) (-52 + e) ∣ 2 ^ 52 * m := by
      rw [hexcess]
      exact Nat.dvd_mul_right _ m
    have hexact := value_cut_of_dvd hle hdvd
    have hvalue : ((2 ^ 52 * m : ℕ) : ℚ) * 2 ^ (-52 + e) = m * 2 ^ e := by
      rw [zpow_add₀ two_ne_zero]
      push_cast
      norm_num
      ring
    rw [hvalue] at hexact
    have hlast : place (2 ^ 52 * m) (-52 + e) ≤ 970 ∨
        place (2 ^ 52 * m) (-52 + e) = 971 ∧ cut (2 ^ 52 * m) (-52 + e) < 2 ^ 53 := by
      rw [hplace, cut_of_dvd hdvd, hexcess, Nat.mul_div_cancel_left m (by decide)]
      omega
    refine (value_round_of_place (s * s') hm hle hlast).trans ?_
    rw [hexact, factor_mul, apply_mul, mul_assoc]

/-! ## Operations -/

variable {x y : Float} {a b : ℚ}

theorem fits_valueOf {u : UnpackedFloat} (hu : Canonical u) (ha : valueOf u = some a) : Fits a := by
  cases u with
  | infinity s => cases ha
  | notANumber => cases ha
  | zero s =>
    cases ha
    exact fits_zero
  | finite s m e h =>
    cases ha
    obtain ⟨hlt, hmin, -, -⟩ := hu
    refine ⟨s.apply m, e, ?_, hmin, rfl⟩
    cases s <;> simp only [Sign.apply, abs_neg, Nat.abs_cast] <;> exact_mod_cast hlt

theorem valueOf_unpack (h : value? x = some a) : valueOf x.toModel.unpack = some a := by
  rw [← value?_eq]
  exact h

/-- **The value of a machine real** is a number of the format. -/
theorem fits_value (h : value? x = some a) : Fits a :=
  fits_valueOf (canonical_unpack x) (valueOf_unpack h)

/-- **Sums** are off by `2 ^ -52` at most. -/
theorem value_add (ha : value? x = some a) (hb : value? y = some b)
    (hmax : |a + b| < 2 ^ (1023 : ℤ)) :
    ∃ c, value? (x + y) = some c ∧ Near c (a + b) ∧ Faithful c (a + b) :=
  value_add_parts (canonical_unpack x) (canonical_unpack y) (valueOf_unpack ha) (valueOf_unpack hb)
    hmax

/-- **Differences** are off by `2 ^ -52` at most. -/
theorem value_sub (ha : value? x = some a) (hb : value? y = some b)
    (hmax : |a - b| < 2 ^ (1023 : ℤ)) :
    ∃ c, value? (x - y) = some c ∧ Near c (a - b) ∧ Faithful c (a - b) := by
  have hsub : x - y = packed (add Format.binary64 x.toModel.unpack y.toModel.unpack.neg) :=
    congrArg packed (sub_eq_add_opposite x.toModel.unpack y.toModel.unpack)
  rw [hsub, sub_eq_add_neg]
  rw [sub_eq_add_neg] at hmax
  exact value_add_parts (canonical_unpack x) (canonical_neg (canonical_unpack y))
    (valueOf_unpack ha) (valueOf_neg (valueOf_unpack hb)) hmax

/-- **Products** are off by `2 ^ -52` and one least machine real at most. -/
theorem value_mul (ha : value? x = some a) (hb : value? y = some b)
    (hmax : |a * b| < 2 ^ (1023 : ℤ)) : ∃ c, value? (x * y) = some c ∧
      |c - a * b| ≤ 2 ^ (-52 : ℤ) * |a * b| + 2 ^ (-1074 : ℤ) ∧ Faithful c (a * b) :=
  value_mul_parts (canonical_unpack x) (canonical_unpack y) (valueOf_unpack ha) (valueOf_unpack hb)
    hmax

/-- Multiplying by one is exact. -/
theorem value_one_mul (hb : value? y = some b) : value? (1.0 * y) = some b := by
  have hone : (1.0 : Float).toModel.unpack = .finite .positive (2 ^ 52) (-52) (by decide) := by
    rfl
  have hmul : 1.0 * y = packed (mul Format.binary64 (1.0 : Float).toModel.unpack y.toModel.unpack) :=
    rfl
  rw [hmul, hone, value_mul_unit .positive (canonical_unpack y) (valueOf_unpack hb), factor, one_mul]

/-- Multiplying by minus one is exact. -/
theorem value_neg_one_mul (hb : value? y = some b) : value? (-1.0 * y) = some (-b) := by
  have hone : (-1.0 : Float).toModel.unpack = .finite .negative (2 ^ 52) (-52) (by decide) := by
    rfl
  have hmul : -1.0 * y =
      packed (mul Format.binary64 (-1.0 : Float).toModel.unpack y.toModel.unpack) := rfl
  rw [hmul, hone, value_mul_unit .negative (canonical_unpack y) (valueOf_unpack hb), factor,
    neg_one_mul]

/-- **Magnitudes** are exact. -/
theorem value_abs (ha : value? x = some a) : value? x.abs = some |a| := by
  have habs : x.abs = packed x.toModel.unpack.abs := rfl
  have hu := canonical_unpack x
  have hvalue := valueOf_unpack ha
  rw [habs]
  generalize x.toModel.unpack = u at hu hvalue
  cases u with
  | infinity s => cases hvalue
  | notANumber => cases hvalue
  | zero s =>
    cases hvalue
    rw [abs_zero]
    exact value_packed (u := .zero _) trivial
  | finite s m e h =>
    cases hvalue
    have hpos : (0 : ℚ) ≤ m * 2 ^ e := by positivity
    rw [apply_mul, abs_factor_mul, abs_of_nonneg hpos]
    exact value_packed (u := .finite .positive m e h) hu

/-! ## Order -/

theorem lt_iff_of_value (ha : value? x = some a) (hb : value? y = some b) : x < y ↔ a < b := by
  rw [lt_iff, level_of_value ha, level_of_value hb, Level.order?_exact, Option.some.injEq]
  exact cmp_eq_lt_iff a b

/-- A finite machine real is not undefined. -/
theorem isNaN_of_value (h : value? x = some a) : x.isNaN = false := by
  have hnan : x.isNaN = x.toModel.unpack.isNaN := rfl
  rw [hnan]
  have hvalue := valueOf_unpack h
  generalize x.toModel.unpack = u at hvalue ⊢
  cases u with
  | infinity s => cases hvalue
  | notANumber => cases hvalue
  | zero s => rfl
  | finite s m e hm => rfl

theorem lt_iff_value (ha : value? x = some a) (hb : value? y = some b) :
    Scalar.lt x y = true ↔ a < b := by
  show (compare? x y == some .lt) = true ↔ a < b
  rw [compare?_eq, level_of_value ha, level_of_value hb, Level.order?_exact, beq_iff_eq,
    Option.some.injEq]
  exact cmp_eq_lt_iff a b

theorem le_iff_value (ha : value? x = some a) (hb : value? y = some b) :
    Scalar.le x y = true ↔ a ≤ b := by
  show (compare? x y).elim false (· != .gt) = true ↔ a ≤ b
  rw [compare?_eq, level_of_value ha, level_of_value hb, Level.order?_exact, ← not_lt,
    ← cmp_eq_gt_iff a b]
  simp

end InitialValue.Binary
