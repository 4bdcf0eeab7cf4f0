/-
  Which quotients have a finite machine real.

  `nearest` rounds a quotient to a mantissa in the units that its exponent calls for.  Half a unit
  above the largest machine real the mantissa carries into the field of the infinities; so a
  quotient is in range exactly below `range` (`nearest_isFinite_iff`).

  1. **Rounding to whole numbers** — `Decimal.nearest_le`, `Decimal.le_nearest`,
     `Decimal.nearest_bounds`, and the same in units.
  2. **The exponent** — `exponent_spec`.
  3. **Range** — `isFinite_ofBits`, `nearest_isFinite_iff`.
-/
import InitialValue.Proofs.Binary.Fields

namespace InitialValue

/-! ## Rounding to whole numbers -/

namespace Decimal

theorem nearest_le {a b k : ℕ} (hb : 0 < b) (h : 2 * a < (2 * k + 1) * b) : nearest a b ≤ k := by
  have hdiv := Nat.div_add_mod a b
  have hmod := Nat.mod_lt a hb
  have hq : a / b ≤ k := by
    rw [← Nat.lt_succ_iff, Nat.div_lt_iff_lt_mul hb]
    nlinarith
  unfold nearest
  rcases Nat.lt_or_ge (a / b) k with hlt | hge
  · dsimp only
    split_ifs <;> omega
  · have hk : a / b = k := Nat.le_antisymm hq hge
    have hr : 2 * (a % b) < b := by
      rw [hk] at hdiv
      nlinarith
    dsimp only
    rw [if_pos hr]
    exact hq

/-- An even number is reached from half a unit below. -/
theorem le_nearest {a b k : ℕ} (hb : 0 < b) (hk : k % 2 = 0) (h : (2 * k) * b ≤ 2 * a + b) :
    k ≤ nearest a b := by
  have hdiv := Nat.div_add_mod a b
  have hmod := Nat.mod_lt a hb
  have hq : k ≤ a / b + 1 := by
    rw [← Nat.lt_succ_iff, Nat.succ_eq_add_one]
    by_contra hlt
    have hle : a / b + 2 ≤ k := by omega
    nlinarith
  unfold nearest
  dsimp only
  rcases Nat.lt_or_ge (a / b) k with hlt | hge
  · have hk' : a / b + 1 = k := by omega
    have hr : b ≤ 2 * (a % b) := by
      rw [← hk'] at h
      nlinarith
    rw [if_neg (by omega)]
    split_ifs <;> omega
  · split_ifs <;> omega

theorem nearest_bounds (a : ℕ) {b : ℕ} (hb : 0 < b) :
    2 * nearest a b * b ≤ 2 * a + b ∧ 2 * a ≤ (2 * nearest a b + 1) * b := by
  have hdiv := Nat.div_add_mod a b
  have hmod := Nat.mod_lt a hb
  have hfloor : 2 * (a / b) * b + 2 * (a % b) = 2 * a := by
    rw [mul_assoc, mul_comm (a / b) b, ← Nat.mul_add, hdiv]
  have hstep : 2 * (a / b + 1) * b = 2 * (a / b) * b + 2 * b := by ring
  have hover : ∀ k, (2 * k + 1) * b = 2 * k * b + b := fun k => by ring
  unfold nearest
  dsimp only
  split_ifs <;> rw [hover] <;> omega

end Decimal

namespace Binary

theorem cast_pow_toNat {k : ℤ} (hk : 0 ≤ k) : ((Nat.pow 2 k.toNat : ℕ) : ℚ) = 2 ^ k := by
  rw [Nat.pow_eq, Nat.cast_pow, Nat.cast_ofNat, ← zpow_natCast, Int.toNat_of_nonneg hk]

/-- Rounding in units is rounding a quotient of the same value. -/
theorem inUnits_eq (a : ℕ) {b : ℕ} (k : ℤ) (hb : 0 < b) : ∃ (p q : ℕ) (r : ℚ),
    inUnits a b k = Decimal.nearest p q ∧ 0 < q ∧ 0 < r ∧ (p : ℚ) = r * a ∧
      (q : ℚ) = r * (2 ^ k * b) := by
  unfold inUnits
  by_cases hk : 0 ≤ k
  · refine ⟨a, b * Nat.pow 2 k.toNat, 1, if_pos hk, ?_, one_pos, (one_mul _).symm, ?_⟩
    · exact Nat.mul_pos hb (Nat.pow_pos two_pos)
    · rw [Nat.cast_mul, cast_pow_toNat hk, one_mul, mul_comm]
  · refine ⟨a * Nat.pow 2 (-k).toNat, b, 2 ^ (-k), if_neg hk, hb, by positivity, ?_, ?_⟩
    · rw [Nat.cast_mul, cast_pow_toNat (by omega), mul_comm]
    · rw [← mul_assoc, ← zpow_add₀ two_ne_zero, neg_add_cancel, zpow_zero, one_mul]

theorem inUnits_le {a b n : ℕ} {k : ℤ} (hb : 0 < b)
    (h : (a : ℚ) < (n + 1 / 2) * (2 ^ k * b)) : inUnits a b k ≤ n := by
  obtain ⟨p, q, r, heq, hq', hr, hp, hq⟩ := inUnits_eq a k hb
  rw [heq]
  refine Decimal.nearest_le hq' ?_
  have hcast : (2 * p : ℚ) < (2 * n + 1) * q := by
    rw [hp, hq]
    linarith [mul_lt_mul_of_pos_left h hr]
  exact_mod_cast hcast

theorem le_inUnits {a b n : ℕ} {k : ℤ} (hb : 0 < b) (hn : n % 2 = 0)
    (h : (n - 1 / 2) * (2 ^ k * b) ≤ (a : ℚ)) : n ≤ inUnits a b k := by
  obtain ⟨p, q, r, heq, hq', hr, hp, hq⟩ := inUnits_eq a k hb
  rw [heq]
  refine Decimal.le_nearest hq' hn ?_
  have hcast : (2 * n * q : ℚ) ≤ 2 * p + q := by
    rw [hp, hq]
    linarith [mul_le_mul_of_nonneg_left h hr.le]
  exact_mod_cast hcast

/-- Rounding in units is off by half a unit at most. -/
theorem inUnits_bounds {a b : ℕ} (k : ℤ) (hb : 0 < b) :
    (inUnits a b k - 1 / 2) * (2 ^ k * b) ≤ (a : ℚ) ∧
      (a : ℚ) ≤ (inUnits a b k + 1 / 2) * (2 ^ k * b) := by
  obtain ⟨p, q, r, heq, hq', hr, hp, hq⟩ := inUnits_eq a k hb
  obtain ⟨hlow, hhigh⟩ := Decimal.nearest_bounds p hq'
  rw [← heq] at hlow hhigh
  have hlow' : (2 * inUnits a b k * q : ℚ) ≤ 2 * p + q := by exact_mod_cast hlow
  have hhigh' : (2 * p : ℚ) ≤ (2 * inUnits a b k + 1) * q := by exact_mod_cast hhigh
  rw [hp, hq] at hlow' hhigh'
  constructor <;> refine le_of_mul_le_mul_left ?_ hr <;> linarith

/-! ## The exponent -/

theorem log2_bounds {a : ℕ} (ha : a ≠ 0) :
    (2 : ℚ) ^ (a.log2 : ℤ) ≤ a ∧ (a : ℚ) < 2 ^ ((a.log2 : ℤ) + 1) := by
  have hlow := Nat.log2_self_le ha
  have hhigh := Nat.lt_log2_self (n := a)
  constructor
  · rw [zpow_natCast]
    exact_mod_cast hlow
  · have hcast : (a : ℚ) < 2 ^ (a.log2 + 1) := by exact_mod_cast hhigh
    calc (a : ℚ) < 2 ^ (a.log2 + 1) := hcast
      _ = 2 ^ ((a.log2 : ℤ) + 1) := by rw [← zpow_natCast]; push_cast; rfl

/-- **The exponent of a quotient**: it lies between two neighbouring powers of two. -/
theorem exponent_spec {a b : ℕ} (ha : a ≠ 0) (hb : b ≠ 0) :
    (2 : ℚ) ^ exponent a b * b ≤ a ∧ (a : ℚ) < 2 ^ (exponent a b + 1) * b := by
  obtain ⟨halow, hahigh⟩ := log2_bounds ha
  obtain ⟨hblow, hbhigh⟩ := log2_bounds hb
  set guess : ℤ := (a.log2 : ℤ) - b.log2 with hguess
  -- the guess is off by one at most
  have hhigh : (a : ℚ) < 2 ^ (guess + 1) * b :=
    calc (a : ℚ) < 2 ^ ((a.log2 : ℤ) + 1) := hahigh
      _ = 2 ^ (guess + 1) * 2 ^ (b.log2 : ℤ) := by
        rw [← zpow_add₀ two_ne_zero]; congr 1; omega
      _ ≤ 2 ^ (guess + 1) * b := mul_le_mul_of_nonneg_left hblow (by positivity)
  have hlow : (2 : ℚ) ^ (guess - 1) * b ≤ a :=
    calc (2 : ℚ) ^ (guess - 1) * b ≤ 2 ^ (guess - 1) * 2 ^ ((b.log2 : ℤ) + 1) :=
          mul_le_mul_of_nonneg_left hbhigh.le (by positivity)
      _ = 2 ^ (a.log2 : ℤ) := by rw [← zpow_add₀ two_ne_zero]; congr 1; omega
      _ ≤ a := halow
  have hcompare : ∀ p q : ℕ, ((p : ℚ) < q ↔ (a : ℚ) < 2 ^ guess * b) →
      exponent a b = (if p < q then guess - 1 else guess) →
      (2 : ℚ) ^ exponent a b * b ≤ a ∧ (a : ℚ) < 2 ^ (exponent a b + 1) * b := by
    intro p q hpq he
    rw [he]
    split_ifs with hlt
    · rw [sub_add_cancel]
      exact ⟨hlow, hpq.mp (by exact_mod_cast hlt)⟩
    · refine ⟨not_lt.mp fun hc => hlt ?_, hhigh⟩
      exact_mod_cast hpq.mpr hc
  by_cases hsign : 0 ≤ guess
  · refine hcompare a (b * Nat.pow 2 guess.toNat) ?_ ?_
    · rw [Nat.cast_mul, cast_pow_toNat hsign, mul_comm (b : ℚ)]
    · unfold exponent
      rw [← hguess]
      simp only [if_pos hsign]
  · refine hcompare (a * Nat.pow 2 (-guess).toNat) b ?_ ?_
    · rw [Nat.cast_mul, cast_pow_toNat (by omega), zpow_neg, ← div_eq_mul_inv,
        div_lt_iff₀ (by positivity), mul_comm (b : ℚ)]
    · unfold exponent
      rw [← hguess]
      simp only [if_neg hsign]

/-! ## Range -/

theorem isFinite_iff_field (x : Float) : x.isFinite = true ↔ field x ≠ 2047 := by
  have hshape := shape x
  show x.toModel.unpack.isFinite = true ↔ _
  generalize x.toModel.unpack = u at hshape ⊢
  cases hshape with
  | infinity hf _ => exact iff_of_false Bool.false_ne_true fun h => h hf
  | undefined hf _ => exact iff_of_false Bool.false_ne_true fun h => h hf
  | zero hf _ => exact ⟨fun _ => by omega, fun _ => rfl⟩
  | small m e h hf _ _ => exact ⟨fun _ => by omega, fun _ => rfl⟩
  | normal m e h _ hf _ _ => exact ⟨fun _ => hf, fun _ => rfl⟩

/-- Bits that are no undefined result are read as they are. -/
theorem isFinite_ofBits {u : UInt64} (h : u.toNat / 2 ^ 52 % 2 ^ 11 ≠ 2047 ∨ u.toNat % 2 ^ 52 = 0) :
    (Float.ofBits u).isFinite = true ↔ u.toNat / 2 ^ 52 % 2 ^ 11 ≠ 2047 := by
  have hvalid : Float.Model.Format.binary64.Valid u.toBitVec := by
    refine ⟨fun hexp hmant => ?_⟩
    have hones : (-BitVec.ofNat Float.Model.Format.binary64.exponentBits 1).toNat = 2047 := by
      decide
    have he : u.toNat / 2 ^ 52 % 2 ^ 11 = 2047 := by
      rw [← BitVec.toNat_inj, toNat_unpackExponent, hones] at hexp
      exact hexp
    rcases h with h | h
    · exact absurd he h
    · refine absurd (BitVec.eq_of_toNat_eq ?_) hmant
      rw [toNat_unpackMantissa, UInt64.toNat_toBitVec, h]
      rfl
  have hpacked : Float.ofBits u = packed (Float.ofModel ⟨u, hvalid⟩).toModel.unpack := rfl
  have hread := unpack_packed (canonical_unpack (Float.ofModel ⟨u, hvalid⟩))
  have hfinite := isFinite_iff_field (Float.ofModel ⟨u, hvalid⟩)
  rw [hpacked]
  unfold Float.isFinite Float.Model.isFinite at hfinite ⊢
  rw [hread]
  exact hfinite

/-- The bound of machine reals: half a unit above the largest one. -/
def range : ℚ := (2 ^ 53 - 1 / 2) * 2 ^ (971 : ℤ)

/-- The magnitude field of the nearest machine real. -/
def magnitudeBits (a b : ℕ) : ℕ :=
  if a = 0 then 0
  else
    let e := max (exponent a b) (-1022)
    min (2047 * 2 ^ 52) ((e + 1022).toNat * 2 ^ 52 + inUnits a b (e - 52))

theorem nearest_eq (negative : Bool) (a b : ℕ) : nearest negative a b =
    Float.ofBits (UInt64.ofNat (magnitudeBits a b + if negative then 2 ^ 63 else 0)) := by
  unfold nearest magnitudeBits
  simp only [Nat.pow_eq]

theorem two_zpow_le_scaled {e k f : ℤ} (h : e ≤ k + f) : (2 : ℚ) ^ e ≤ 2 ^ k * 2 ^ f := by
  rw [← zpow_add₀ two_ne_zero]
  exact zpow_le_zpow_right₀ one_le_two h

/-- The bound of machine reals lies between the powers of two of the last exponent. -/
theorem range_bounds : (2 : ℚ) ^ (52 : ℤ) * 2 ^ (971 : ℤ) ≤ range ∧
    range ≤ 2 ^ (53 : ℤ) * 2 ^ (971 : ℤ) :=
  ⟨mul_le_mul_of_nonneg_right (by norm_num) (by positivity),
    mul_le_mul_of_nonneg_right (by norm_num) (by positivity)⟩

section

variable {a b : ℕ} {e : ℤ}

/-- Below the last exponent the mantissa has room to round up. -/
theorem magnitude_below (hb : 0 < b) (hhigh : (a : ℚ) < 2 ^ (e + 1) * b) (he : e < 1023) :
    (max e (-1022) + 1022).toNat * 2 ^ 52 + inUnits a b (max e (-1022) - 52) < 2047 * 2 ^ 52 ∧
      (a : ℚ) < range * b := by
  have hb' : (0 : ℚ) < b := by exact_mod_cast hb
  constructor
  · have hunits : inUnits a b (max e (-1022) - 52) ≤ 2 ^ 53 := by
      refine inUnits_le hb ?_
      have hpow : (2 : ℚ) ^ (e + 1) ≤ 2 ^ (53 : ℤ) * 2 ^ (max e (-1022) - 52) :=
        two_zpow_le_scaled (by omega)
      have hpos : (0 : ℚ) < 2 ^ (max e (-1022) - 52) := by positivity
      push_cast
      nlinarith
    have hexp : (max e (-1022) + 1022).toNat ≤ 2044 := by omega
    omega
  · have hpow : (2 : ℚ) ^ (e + 1) ≤ 2 ^ (52 : ℤ) * 2 ^ (971 : ℤ) := two_zpow_le_scaled (by omega)
    calc (a : ℚ) < 2 ^ (e + 1) * b := hhigh
      _ ≤ range * b := mul_le_mul_of_nonneg_right (hpow.trans range_bounds.1) hb'.le

/-- At the last exponent the mantissa must not carry. -/
theorem magnitude_last (hb : 0 < b) :
    2045 * 2 ^ 52 + inUnits a b 971 < 2047 * 2 ^ 52 ↔ (a : ℚ) < range * b := by
  have hrange : range = (2 ^ 53 - 1 / 2) * 2 ^ (971 : ℤ) := rfl
  constructor
  · intro h
    by_contra hge
    have hunits : 2 ^ 53 ≤ inUnits a b 971 := by
      refine le_inUnits hb (by norm_num) ?_
      rw [not_lt, hrange] at hge
      generalize (2 : ℚ) ^ (971 : ℤ) = p at hge ⊢
      push_cast
      linarith
    omega
  · intro h
    have hunits : inUnits a b 971 ≤ 2 ^ 53 - 1 := by
      refine inUnits_le hb ?_
      rw [hrange] at h
      generalize (2 : ℚ) ^ (971 : ℤ) = p at h ⊢
      push_cast
      linarith
    omega

/-- Above the last exponent everything is out of range. -/
theorem magnitude_above (hb : 0 < b) (hlow : (2 : ℚ) ^ e * b ≤ a) (he : 1023 < e) :
    2047 * 2 ^ 52 ≤ (max e (-1022) + 1022).toNat * 2 ^ 52 + inUnits a b (max e (-1022) - 52) ∧
      range * b ≤ (a : ℚ) := by
  have hb' : (0 : ℚ) < b := by exact_mod_cast hb
  constructor
  · have hunits : 2 ^ 52 ≤ inUnits a b (max e (-1022) - 52) := by
      refine le_inUnits hb (by norm_num) ?_
      have hmax : max e (-1022) = e := by omega
      have hsplit : (2 : ℚ) ^ e = 2 ^ (52 : ℤ) * 2 ^ (e - 52) := by
        rw [← zpow_add₀ two_ne_zero]
        congr 1
        omega
      have hpos : (0 : ℚ) < 2 ^ (e - 52) := by positivity
      rw [hmax]
      rw [hsplit] at hlow
      push_cast
      nlinarith
    have hexp : 2046 ≤ (max e (-1022) + 1022).toNat := by omega
    omega
  · have hpow : (2 : ℚ) ^ (53 : ℤ) * 2 ^ (971 : ℤ) ≤ 2 ^ e := by
      rw [← zpow_add₀ two_ne_zero]
      exact zpow_le_zpow_right₀ one_le_two (by omega)
    calc range * b ≤ 2 ^ e * b := mul_le_mul_of_nonneg_right (range_bounds.2.trans hpow) hb'.le
      _ ≤ a := hlow

end

theorem magnitudeBits_lt_iff {a b : ℕ} (hb : 0 < b) :
    magnitudeBits a b < 2047 * 2 ^ 52 ↔ (a : ℚ) < range * b := by
  have hb' : (0 : ℚ) < b := by exact_mod_cast hb
  unfold magnitudeBits
  split_ifs with ha
  · rw [ha, Nat.cast_zero]
    exact iff_of_true (by norm_num) (mul_pos (by unfold range; positivity) hb')
  · obtain ⟨hlow, hhigh⟩ := exponent_spec ha hb.ne'
    generalize exponent a b = e at hlow hhigh
    dsimp only
    rw [min_lt_iff, or_iff_right (lt_irrefl _)]
    rcases lt_trichotomy e 1023 with he | rfl | he
    · obtain ⟨hbits, hin⟩ := magnitude_below hb hhigh he
      exact iff_of_true hbits hin
    · exact magnitude_last hb
    · obtain ⟨hbits, hout⟩ := magnitude_above hb hlow he
      exact iff_of_false (not_lt.mpr hbits) (not_lt.mpr hout)

/-- **A quotient has a finite machine real** exactly when it is in range. -/
theorem nearest_isFinite_iff (negative : Bool) {a b : ℕ} (hb : 0 < b) :
    (nearest negative a b).isFinite = true ↔ (a : ℚ) < range * b := by
  have hle : magnitudeBits a b ≤ 2047 * 2 ^ 52 := by
    unfold magnitudeBits
    split_ifs
    · exact Nat.zero_le _
    · exact min_le_left _ _
  rw [← magnitudeBits_lt_iff hb, nearest_eq]
  have htoNat : (UInt64.ofNat (magnitudeBits a b + if negative then 2 ^ 63 else 0)).toNat =
      magnitudeBits a b + if negative then 2 ^ 63 else 0 :=
    UInt64.toNat_ofNat_of_lt' (by show _ < 2 ^ 64; split_ifs <;> omega)
  rw [isFinite_ofBits, htoNat]
  · split_ifs <;> omega
  · rw [htoNat]
    split_ifs <;> omega

end Binary

end InitialValue
