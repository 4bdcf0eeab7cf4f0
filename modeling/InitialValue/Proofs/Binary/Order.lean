/-
  The order of machine reals is the order of their exact values.

  `Level` is where a number can stand: a rational, or an infinity on either side.  Comparing two
  machine reals compares exponents first and mantissas next; since both are in lowest terms that is
  the order of `m · 2 ^ e` (`compare_parts`), and so every comparison is the comparison of two
  levels (`compare?_eq`, `compareInt?_eq`).  The magnitude of a finite machine real is its exact
  absolute value.
-/
import InitialValue.Proofs.Binary.Fields

namespace InitialValue

/-! ## Levels -/

/-- A rational, or an infinity. -/
abbrev Level := WithBot (WithTop Rat)

namespace Level

/-- The order of two levels, if both are there. -/
def order? (a b : Option Level) : Option Ordering := a.bind fun p => b.map fun q => cmp p q

/-- The level of a rational. -/
def exact (q : Rat) : Level := ((q : WithTop Rat) : Level)

theorem order?_exact (a b : Rat) : order? (some (exact a)) (some (exact b)) = some (cmp a b) := by
  simp [order?, exact, cmp, cmpUsing]

theorem order?_swap (a b : Option Level) : (order? a b).map Ordering.swap = order? b a := by
  cases a <;> cases b <;> simp [order?, cmp_swap]

@[simp]
theorem bot_ne_exact (q : Rat) : ⊥ ≠ exact q := WithBot.bot_ne_coe

@[simp]
theorem top_ne_exact (q : Rat) : ⊤ ≠ exact q := by
  unfold exact
  simp only [← WithBot.coe_top, ne_eq, WithBot.coe_inj]
  exact WithTop.top_ne_coe

theorem exact_lt_top (q : Rat) : exact q < ⊤ := by
  rw [lt_top_iff_ne_top]
  exact (top_ne_exact q).symm

theorem exact_lt_exact {a b : Rat} : exact a < exact b ↔ a < b := by
  simp [exact]

end Level

namespace Binary

open Float.Model (UnpackedFloat Format)
open Float.Model.UnpackedFloat
open Level

/-! ## The exact value -/

/-- The exact value of a number in parts; none for an infinity or an undefined result. -/
def valueOf : UnpackedFloat → Option Rat
  | .zero _ => some 0
  | .finite s m e _ => some ((s.apply m : Int) * 2 ^ e)
  | _ => none

theorem magnitude_quotient (f : Fraction) :
    (mkRat (f.magnitude.1 : Int) f.magnitude.2 : Rat) = f.mant * 2 ^ f.exp := by
  unfold Fraction.magnitude
  split
  · rename_i h
    obtain ⟨n, hn⟩ := Int.eq_ofNat_of_zero_le h
    simp [hn, Rat.mkRat_one]
  · rename_i h
    obtain ⟨n, hn⟩ : ∃ n : Nat, f.exp = -n := ⟨(-f.exp).toNat, by omega⟩
    rw [Rat.mkRat_eq_div]
    simp [hn, div_eq_mul_inv]

theorem toRat_eq (f : Fraction) :
    f.toRat = (if f.negative then -1 else 1) * f.mant * 2 ^ f.exp := by
  unfold Fraction.toRat
  simp only [magnitude_quotient]
  split <;> simp

theorem ofFloat?_eq (x : Float) :
    Fraction.ofFloat? x =
      if field x = 2047 then none
      else if field x = 0 then some ⟨x.toBits.toNat / 2 ^ 63 == 1, low x, -1074⟩
      else some ⟨x.toBits.toNat / 2 ^ 63 == 1, low x + 2 ^ 52, (field x : Int) - 1075⟩ := rfl

theorem apply_signOf (x : Float) (m : Nat) :
    (((signOf x).apply m : Int) : Rat) = (if x.toBits.toNat / 2 ^ 63 == 1 then -1 else 1) * m := by
  unfold signOf
  by_cases h : x.toBits.toNat / 2 ^ 63 = 1
  · have hb : (x.toBits.toNat / 2 ^ 63 == 1) = true := by simpa using h
    rw [if_pos h, hb]; simp [Sign.apply]
  · have hb : (x.toBits.toNat / 2 ^ 63 == 1) = false := by simpa using h
    rw [if_neg h, hb]; simp [Sign.apply]

theorem value?_eq (x : Float) : value? x = valueOf x.toModel.unpack := by
  have h := shape x
  unfold value?
  rw [ofFloat?_eq]
  generalize x.toModel.unpack = u at h ⊢
  cases h with
  | infinity hf _ => simp [hf, valueOf]
  | undefined hf _ => simp [hf, valueOf]
  | zero hf hl => simp [hf, hl, valueOf, toRat_eq]
  | small m e h hf hm he =>
    subst hm he
    simp only [valueOf, apply_signOf]
    simp [hf, toRat_eq]
  | normal m e h hf hf' hm he =>
    subst hm he
    simp only [valueOf, apply_signOf]
    simp [hf, hf', toRat_eq, add_comm]

/-! ## Comparison -/

/-- The level of a number in parts. -/
def levelOf : UnpackedFloat → Option Level
  | .notANumber => none
  | .infinity .positive => some ⊤
  | .infinity .negative => some ⊥
  | .zero _ => some (exact 0)
  | .finite .positive m e _ => some (exact (m * 2 ^ e))
  | .finite .negative m e _ => some (exact (-(m * 2 ^ e)))

theorem mul_zpow_lt_mul_zpow {m₁ m₂ : Nat} {e₁ e₂ : Int} (hm₁ : m₁ < 2 ^ 53) (hm₂ : 2 ^ 52 ≤ m₂)
    (he : e₁ < e₂) : (m₁ * 2 ^ e₁ : Rat) < m₂ * 2 ^ e₂ := by
  calc (m₁ * 2 ^ e₁ : Rat) < 2 ^ 53 * 2 ^ e₁ := by
        have : (m₁ : Rat) < 2 ^ 53 := by exact_mod_cast hm₁
        exact mul_lt_mul_of_pos_right this (by positivity)
    _ = 2 ^ 52 * 2 ^ (e₁ + 1) := by rw [zpow_add₀ two_ne_zero]; ring
    _ ≤ m₂ * 2 ^ e₂ := by
        have h1 : (2 ^ 52 : Rat) ≤ m₂ := by exact_mod_cast hm₂
        have h2 : (2 : Rat) ^ (e₁ + 1) ≤ 2 ^ e₂ := zpow_le_zpow_right₀ (by norm_num) (by omega)
        exact mul_le_mul h1 h2 (by positivity) (by positivity)

theorem compare_parts {s₁ s₂ : Sign} {m₁ m₂ : Nat} {e₁ e₂ : Int} {h₁ h₂}
    (c₁ : Canonical (.finite s₁ m₁ e₁ h₁)) (c₂ : Canonical (.finite s₂ m₂ e₂ h₂)) :
    (compare e₁ e₂).then (compare m₁ m₂) = cmp (m₁ * 2 ^ e₁ : Rat) (m₂ * 2 ^ e₂) := by
  obtain ⟨hm₁, hl₁, -, hn₁⟩ := c₁
  obtain ⟨hm₂, hl₂, -, hn₂⟩ := c₂
  rcases lt_trichotomy e₁ e₂ with he | he | he
  · have : (m₁ * 2 ^ e₁ : Rat) < m₂ * 2 ^ e₂ := mul_zpow_lt_mul_zpow hm₁ (by omega) he
    rw [Int.compare_eq_lt.mpr he, (cmp_eq_lt_iff _ _).mpr this]; rfl
  · subst he
    rw [Int.compare_eq_eq.mpr rfl]
    show compare m₁ m₂ = _
    have hpos : (0 : Rat) < 2 ^ e₁ := by positivity
    rcases lt_trichotomy m₁ m₂ with hm | hm | hm
    · have : (m₁ * 2 ^ e₁ : Rat) < m₂ * 2 ^ e₁ :=
        mul_lt_mul_of_pos_right (by exact_mod_cast hm) hpos
      rw [Nat.compare_eq_lt.mpr hm, (cmp_eq_lt_iff _ _).mpr this]
    · subst hm
      rw [Nat.compare_eq_eq.mpr rfl, (cmp_eq_eq_iff _ _).mpr rfl]
    · have : (m₂ * 2 ^ e₁ : Rat) < m₁ * 2 ^ e₁ :=
        mul_lt_mul_of_pos_right (by exact_mod_cast hm) hpos
      rw [Nat.compare_eq_gt.mpr hm, (cmp_eq_gt_iff _ _).mpr this]
  · have : (m₂ * 2 ^ e₂ : Rat) < m₁ * 2 ^ e₁ := mul_zpow_lt_mul_zpow hm₂ (by omega) he
    rw [Int.compare_eq_gt.mpr he, (cmp_eq_gt_iff _ _).mpr this]; rfl

theorem part_pos {m : Nat} (e : Int) (h : 0 < m) : (0 : Rat) < m * 2 ^ e := by
  have : (0 : Rat) < m := by exact_mod_cast h
  positivity

theorem cmp_neg (a b : Rat) : cmp (-a) (-b) = (cmp a b).swap := by
  rw [cmp_swap]
  simp [cmp, cmpUsing]

theorem compare_eq {u v : UnpackedFloat} (hu : Canonical u) (hv : Canonical v) :
    u.compare v = order? (levelOf u) (levelOf v) := by
  cases u with
  | notANumber => cases v <;> rfl
  | infinity s =>
    cases v with
    | notANumber => cases s <;> rfl
    | infinity s' => cases s <;> cases s' <;> rfl
    | zero s' => cases s <;> rfl
    | finite s' m e h => cases s <;> cases s' <;> rfl
  | zero s =>
    cases v with
    | notANumber => rfl
    | infinity s' => cases s' <;> rfl
    | zero s' => rfl
    | finite s' m e h =>
      have hpos := part_pos e h
      cases s' with
      | positive =>
        rw [levelOf, levelOf, order?_exact, (cmp_eq_lt_iff _ _).mpr hpos]; rfl
      | negative =>
        have hneg : -(m * 2 ^ e : Rat) < 0 := by linarith
        rw [levelOf, levelOf, order?_exact, (cmp_eq_gt_iff _ _).mpr hneg]; rfl
  | finite s m e h =>
    have hpos := part_pos e h
    cases v with
    | notANumber => cases s <;> rfl
    | infinity s' => cases s <;> cases s' <;> rfl
    | zero s' =>
      cases s with
      | positive =>
        rw [levelOf, levelOf, order?_exact, (cmp_eq_gt_iff _ _).mpr hpos]; rfl
      | negative =>
        have hneg : -(m * 2 ^ e : Rat) < 0 := by linarith
        rw [levelOf, levelOf, order?_exact, (cmp_eq_lt_iff _ _).mpr hneg]; rfl
    | finite s' m' e' h' =>
      have hpos' := part_pos e' h'
      -- numbers of one sign compare as their parts do, those of two signs as their signs do
      have hparts := compare_parts hu hv
      cases s with
      | positive =>
        cases s' with
        | positive => rw [levelOf, levelOf, order?_exact, ← hparts]; rfl
        | negative =>
          have hlt : -(m' * 2 ^ e' : Rat) < m * 2 ^ e := by linarith
          rw [levelOf, levelOf, order?_exact, (cmp_eq_gt_iff _ _).mpr hlt]; rfl
      | negative =>
        cases s' with
        | positive =>
          have hlt : -(m * 2 ^ e : Rat) < m' * 2 ^ e' := by linarith
          rw [levelOf, levelOf, order?_exact, (cmp_eq_lt_iff _ _).mpr hlt]; rfl
        | negative => rw [levelOf, levelOf, order?_exact, cmp_neg, ← hparts]; rfl

/-- The place of a machine real in the order; none for an undefined result. -/
def level (x : Float) : Option Level := levelOf x.toModel.unpack

theorem compare_unpack (x y : Float) :
    x.toModel.unpack.compare y.toModel.unpack = order? (level x) (level y) :=
  compare_eq (canonical_unpack x) (canonical_unpack y)

theorem lt_iff (x y : Float) : x < y ↔ order? (level x) (level y) = some .lt := by
  have h : x < y ↔ x.toModel.unpack.lt y.toModel.unpack = true :=
    decide_eq_true_iff (p := x.toModel < y.toModel)
  rw [h, ← compare_unpack]
  simp [UnpackedFloat.lt]

theorem beq_iff (x y : Float) : (x == y) = true ↔ order? (level x) (level y) = some .eq := by
  rw [← compare_unpack]
  show x.toModel.unpack.beq y.toModel.unpack = true ↔ _
  simp [UnpackedFloat.beq]

theorem compare?_eq (x y : Float) : compare? x y = order? (level x) (level y) := by
  have hswap := order?_swap (level x) (level y)
  unfold compare?
  simp only [lt_iff, beq_iff, ← hswap]
  rcases order? (level x) (level y) with _ | o
  · rfl
  · cases o <;> rfl

theorem isFinite_iff (x : Float) : x.isFinite = true ↔ ∃ q : Rat, level x = some (exact q) := by
  show x.toModel.unpack.isFinite = true ↔ _
  unfold level
  rcases x.toModel.unpack with s | _ | s | ⟨s, m, e, h⟩
  · cases s <;> simp [levelOf, UnpackedFloat.isFinite]
  · simp [levelOf, UnpackedFloat.isFinite]
  · simp [levelOf, UnpackedFloat.isFinite]
  · cases s <;> exact ⟨fun _ => ⟨_, rfl⟩, fun _ => rfl⟩

/-- An exact value is the level. -/
theorem level_of_value {x : Float} {q : Rat} (h : value? x = some q) : level x = some (exact q) := by
  rw [value?_eq] at h
  unfold level
  generalize x.toModel.unpack = u at h ⊢
  rcases u with s | _ | s | ⟨s, m, e, hm⟩
  · cases h
  · cases h
  · cases h; rfl
  · cases h
    cases s with
    | positive => simp [levelOf, Sign.apply]
    | negative => simp [levelOf, Sign.apply]

/-- What has no exact value is an infinity or undefined. -/
theorem level_of_no_value {x : Float} (h : value? x = none) :
    level x = none ∧ x.isNaN = true ∨
      (level x = some ⊤ ∨ level x = some ⊥) ∧ x.isNaN = false := by
  rw [value?_eq] at h
  unfold level
  have hnan : x.isNaN = x.toModel.unpack.isNaN := rfl
  rw [hnan]
  generalize x.toModel.unpack = u at h ⊢
  rcases u with s | _ | s | ⟨s, m, e, hm⟩
  · cases s with
    | positive => exact Or.inr ⟨Or.inl rfl, rfl⟩
    | negative => exact Or.inr ⟨Or.inr rfl, rfl⟩
  · exact Or.inl ⟨rfl, rfl⟩
  · cases h
  · cases h

theorem level_zero : level 0 = some (exact 0) := rfl

/-- **Comparison with a whole number** is comparison of levels. -/
theorem compareInt?_eq (x : Float) (n : Int) :
    compareInt? x n = order? (level x) (some (exact n)) := by
  unfold compareInt?
  rcases hv : value? x with _ | q
  · rcases level_of_no_value hv with ⟨hl, hnan⟩ | ⟨hl | hl, hnan⟩
    · simp only [hl, hnan]; rfl
    · have hlt : ¬ x < 0 := by
        rw [lt_iff, hl, level_zero]
        show ¬ some (cmp ⊤ (exact 0)) = some .lt
        rw [(cmp_eq_gt_iff _ _).mpr (exact_lt_top 0)]
        decide
      simp only [hl, hnan, if_neg hlt]; rfl
    · have hlt : x < 0 := by
        rw [lt_iff, hl, level_zero]; rfl
      simp only [hl, hnan, if_pos hlt]; rfl
  · rw [level_of_value hv, order?_exact, cmp_eq_compareOfLessAndEq]

/-- The level of a magnitude. -/
theorem level_abs {x : Float} {q : Rat} (h : level x = some (exact q)) :
    level x.abs = some (exact |q|) := by
  have hc := canonical_unpack x
  have habs : x.abs = packed x.toModel.unpack.abs := rfl
  unfold level at h ⊢
  rw [habs]
  generalize x.toModel.unpack = u at h hc ⊢
  have hc' : Canonical u.abs := by cases u <;> exact hc
  rw [unpack_packed hc']
  rcases u with s | _ | s | ⟨s, m, e, hm⟩
  · cases s <;> simp [levelOf] at h
  · cases h
  · cases h
    rw [abs_zero]; rfl
  · have hpos := part_pos e hm
    cases s with
    | positive =>
      cases h
      rw [abs_of_pos hpos]; rfl
    | negative =>
      cases h
      rw [abs_neg, abs_of_pos hpos]; rfl

end Binary

end InitialValue
