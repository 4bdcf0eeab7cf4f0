/-
  The quotient of machine reals.

  A quotient need not have a last bit.  Division computes the whole part of it in places below the
  last one of the format, and notes how the rest compares with half a place.  Two more bits say as
  much as the note, so rounding with a note is cutting a whole number.

  1. **Rounding with a note** — `roundWithAccuracy_note`; `value_round_note`: no number of the
     format is passed, if the note tells whether there is a rest at all.
  2. **Values** — `div_finite`: division in units; `value_div`, for a quotient that is not too large.
  3. **Levels** — where a quotient stands that is undefined, has a negative sign, or is at most one:
     `level_div_undefined`, `level_div_negative`, `level_div_small`.
-/
import InitialValue.Proofs.Binary.Arithmetic
import InitialValue.Proofs.Number.Order

namespace InitialValue.Binary

open Float.Model (UnpackedFloat Format totalExponent)
open Float.Model.UnpackedFloat

/-! ## Rounding with a note -/

/-- The two bits that stand for a note on the rest. -/
def noteBits : Accuracy → ℕ
  | .exact => 0
  | .inexact .lt => 1
  | .inexact .eq => 2
  | .inexact .gt => 3

theorem noteBits_lt (note : Accuracy) : noteBits note < 4 := by
  cases note with
  | exact => decide
  | inexact o => cases o <;> decide

theorem noteBits_eq_zero {note : Accuracy} (h : noteBits note = 0) : note = .exact := by
  cases note with
  | exact => rfl
  | inexact o => cases o <;> cases h

variable {m : ℕ} {e : ℤ}

theorem shiftRight_note (m : ℕ) (note : Accuracy) (k : ℕ) :
    ExtendedMantissa.ofMantissaAndAccuracy (4 * m + noteBits note) .exact >>> (k + 2) =
      ExtendedMantissa.ofMantissaAndAccuracy m note >>> k := by
  induction k with
  | zero =>
    -- the first of the two bits becomes the sticky bit, the second one the round bit
    show (ExtendedMantissa.mk (4 * m + noteBits note) false false).shiftRightOne.shiftRightOne =
      ExtendedMantissa.ofMantissaAndAccuracy m note
    have hm : (4 * m + noteBits note) / 2 / 2 = m := by
      have hlt := noteBits_lt note
      omega
    unfold ExtendedMantissa.shiftRightOne
    dsimp only
    rw [hm]
    cases note with
    | exact =>
      have hround : (4 * m + 0) / 2 % 2 = 0 := by omega
      have hsticky : (4 * m + 0) % 2 = 0 := by omega
      rw [noteBits, hround, hsticky]
      rfl
    | inexact o =>
      cases o with
      | lt =>
        have hround : (4 * m + 1) / 2 % 2 = 0 := by omega
        have hsticky : (4 * m + 1) % 2 = 1 := by omega
        rw [noteBits, hround, hsticky]
        rfl
      | eq =>
        have hround : (4 * m + 2) / 2 % 2 = 1 := by omega
        have hsticky : (4 * m + 2) % 2 = 0 := by omega
        rw [noteBits, hround, hsticky]
        rfl
      | gt =>
        have hround : (4 * m + 3) / 2 % 2 = 1 := by omega
        have hsticky : (4 * m + 3) % 2 = 1 := by omega
        rw [noteBits, hround, hsticky]
        rfl
  | succ k ih =>
    show (ExtendedMantissa.ofMantissaAndAccuracy (4 * m + noteBits note) .exact >>>
        (k + 2)).shiftRightOne =
      (ExtendedMantissa.ofMantissaAndAccuracy m note >>> k).shiftRightOne
    rw [ih]

/-- Two more bits leave the last place where it is. -/
theorem place_note (h : m ≠ 0 ∨ e ≤ -1074) (note : Accuracy) :
    place (4 * m + noteBits note) (e - 2) = place m e := by
  have hlt := noteBits_lt note
  unfold place
  by_cases hm : m = 0
  · have hlog : (4 * m + noteBits note).log2 ≤ 1 := by
      by_cases h0 : 4 * m + noteBits note = 0
      · rw [h0]
        decide
      · exact Nat.lt_succ_iff.mp ((Nat.log2_lt h0).mpr (by omega))
    have he := h.resolve_left (not_not.mpr hm)
    rw [hm, Nat.log2_zero] at *
    omega
  · have hlog : (4 * m + noteBits note).log2 = m.log2 + 2 := by
      have hself := Nat.log2_self_le hm
      have hnext : m < 2 * 2 ^ m.log2 := by
        rw [← pow_succ']
        exact Nat.lt_log2_self
      have hfour : 2 ^ (m.log2 + 2) = 4 * 2 ^ m.log2 := by
        rw [pow_add, mul_comm]
        rfl
      rw [Nat.log2_eq_iff (by omega), pow_succ 2 (m.log2 + 2), hfour]
      omega
    rw [hlog]
    push_cast
    congr 1
    ring

theorem excess_note (h : m ≠ 0 ∨ e ≤ -1074) (he : e ≤ place m e) (note : Accuracy) :
    excess (4 * m + noteBits note) (e - 2) = excess m e + 2 := by
  have hplace := place_note h note
  unfold excess
  omega

/-- **Rounding with a note** is rounding with two more bits. -/
theorem roundWithAccuracy_note (s : Sign) (h : m ≠ 0 ∨ e ≤ -1074) (he : e ≤ place m e)
    (note : Accuracy) : roundWithAccuracy Format.binary64 s m e note =
      roundWithAccuracy Format.binary64 s (4 * m + noteBits note) (e - 2) .exact := by
  have hshift : shiftToTargetExponent Format.binary64 m e note =
      shiftToTargetExponent Format.binary64 (4 * m + noteBits note) (e - 2) .exact := by
    have hexp : e - 2 + ((excess m e + 2 : ℕ) : ℤ) = e + excess m e := by
      push_cast
      ring
    rw [shift_eq, excess_note h he, shiftRight_note, hexp]
    unfold shiftToTargetExponent shiftToExponent
    rw [targetExponent_eq]
    rfl
  unfold roundWithAccuracy
  rw [hshift]

/-- The value of a rounded number `v` of which the whole part in units of `2 ^ e` is there, and a
    note that tells whether there is more. -/
theorem value_round_note (s : Sign) {v : ℚ} {note : Accuracy} (h : m ≠ 0 ∨ e ≤ -1074)
    (he : e ≤ place m e) (hpos : 0 < v) (hlow : m * 2 ^ e ≤ v) (hhigh : v < (m + 1) * 2 ^ e)
    (hnote : note = .exact ↔ v = m * 2 ^ e) (hmax : v < 2 ^ (1023 : ℤ)) :
    ∃ c, value? (packed (roundWithAccuracy Format.binary64 s m e note)) = some (factor s * c) ∧
      Faithful c v := by
  have hunit : (0 : ℚ) < 2 ^ e := by positivity
  have hplace := place_note h note
  have hexcess := excess_note h he note
  have hne : 4 * m + noteBits note ≠ 0 := by
    intro h0
    obtain rfl : m = 0 := by omega
    have hv := hnote.mp (noteBits_eq_zero (by omega))
    rw [Nat.cast_zero, zero_mul] at hv
    exact hpos.ne' hv
  have hlast := place_le_of_lt h (hlow.trans_lt hmax)
  have hvalue := value_round_of_place s hne (by rw [hplace]; omega) (Or.inl (by rw [hplace]; omega))
  rw [hplace, ← roundWithAccuracy_note s h he] at hvalue
  refine ⟨_, hvalue, faithful_of_places ?_ (fun j hle => ?_) (fun j hle => ?_)⟩
  · rcases eq_or_ne m 0 with rfl | hm
    · exact Or.inr (place_zero (h.resolve_left (not_not.mpr rfl)))
    · exact (full_value hm he).imp_left fun hle => hle.trans hlow
  · -- a whole number of last places up to `v` is one up to its whole part
    rw [mul_place he] at hle
    have hlt : (j * 2 ^ excess m e : ℤ) < m + 1 := by
      exact_mod_cast lt_of_mul_lt_mul_right (hle.trans_lt hhigh) hunit.le
    refine le_cut_of_mul_le ?_
    rw [hexcess, pow_add]
    push_cast
    linarith
  · -- and one from `v` on is above its whole part, unless there is no rest
    rw [mul_place he] at hle
    refine cut_le_of_le_mul ?_
    rw [hexcess, pow_add, ← mul_assoc]
    have hbits := noteBits_lt note
    rcases eq_or_ne note .exact with rfl | hrest
    · rw [hnote.mp rfl] at hle
      have hle' : (m : ℤ) ≤ j * 2 ^ excess m e := by
        exact_mod_cast le_of_mul_le_mul_right hle hunit
      rw [noteBits]
      push_cast
      linarith
    · have hlt : (m * 2 ^ e : ℚ) < v := lt_of_le_of_ne hlow fun heq => hrest (hnote.mpr heq.symm)
      have hlt' : (m : ℤ) < j * 2 ^ excess m e := by
        exact_mod_cast lt_of_mul_lt_mul_right (hlt.trans_le hle) hunit.le
      push_cast
      linarith [Int.add_one_le_iff.mpr hlt', (by exact_mod_cast hbits : (noteBits note : ℤ) < 4)]

/-! ## Values -/

/-- The exponent of the units that division counts in. -/
def divUnit (m : ℕ) (e : ℤ) (m' : ℕ) (e' : ℤ) : ℤ :=
  min (e - e') (max ((m.log2 : ℤ) + (e - e') - m'.log2 - 53) (-1074))

/-- The dividend in these units. -/
def divScaled (m : ℕ) (e : ℤ) (m' : ℕ) (e' : ℤ) : ℕ := m <<< (e - e' - divUnit m e m' e').toNat

section

variable {m m' : ℕ} {e e' : ℤ} {s s' : Sign}

theorem divUnit_le : divUnit m e m' e' ≤ e - e' := min_le_left _ _

/-- **Division** of numbers in parts is division of whole numbers with a note on the remainder. -/
theorem div_finite (h : 0 < m) (h' : 0 < m') :
    div Format.binary64 (.finite s m e h) (.finite s' m' e' h') =
      roundWithAccuracy Format.binary64 (s / s') (divScaled m e m' e' / m') (divUnit m e m' e')
        (accuracyOfFraction (divScaled m e m' e' % m') m') := by
  have htarget : divUnit m e m' e' = min (e - e')
      (Format.binary64.targetExponent (totalExponent m e - totalExponent m' e')) := by
    show _ = min (e - e') (max ((m.log2 : ℤ) + 1 + e - ((m'.log2 : ℤ) + 1 + e') - 53) (-1074))
    unfold divUnit
    congr 2
    ring
  unfold divScaled
  rw [htarget]
  rfl

/-- The whole part has a last place to be rounded at. -/
theorem le_place_div (e e' : ℤ) (hm : 0 < m) (hm' : 0 < m') :
    divUnit m e m' e' ≤ place (divScaled m e m' e' / m') (divUnit m e m' e') ∧
      (divScaled m e m' e' / m' ≠ 0 ∨ divUnit m e m' e' ≤ -1074) := by
  have hd : divUnit m e m' e' ≤ e - e' := divUnit_le
  have ht : divUnit m e m' e' ≤ max ((m.log2 : ℤ) + (e - e') - m'.log2 - 53) (-1074) :=
    min_le_right _ _
  unfold divScaled
  generalize divUnit m e m' e' = t at hd ht
  rcases le_or_gt t (-1074) with hleast | habove
  · exact ⟨hleast.trans (le_max_right _ _), Or.inr hleast⟩
  · -- above the last place of all, the quotient has 53 bits
    have hfull : 2 ^ 52 ≤ m <<< (e - e' - t).toNat / m' := by
      rw [Nat.le_div_iff_mul_le hm', Nat.shiftLeft_eq]
      calc 2 ^ 52 * m' ≤ 2 ^ 52 * 2 ^ (m'.log2 + 1) :=
            Nat.mul_le_mul_left _ Nat.lt_log2_self.le
        _ = 2 ^ (52 + (m'.log2 + 1)) := (pow_add _ _ _).symm
        _ ≤ 2 ^ (m.log2 + (e - e' - t).toNat) := Nat.pow_le_pow_right two_pos (by omega)
        _ = 2 ^ m.log2 * 2 ^ (e - e' - t).toNat := pow_add _ _ _
        _ ≤ m * 2 ^ (e - e' - t).toNat := Nat.mul_le_mul_right _ (Nat.log2_self_le hm.ne')
    have hne : m <<< (e - e' - t).toNat / m' ≠ 0 := by omega
    have hlog : 52 ≤ (m <<< (e - e' - t).toNat / m').log2 := (Nat.le_log2 hne).mpr hfull
    refine ⟨le_trans ?_ (le_max_left _ _), Or.inl hne⟩
    omega

/-- In these units, the quotient is one of whole numbers. -/
theorem div_eq_scaled (m : ℕ) (e e' : ℤ) (h' : 0 < m') :
    (m * 2 ^ e : ℚ) / (m' * 2 ^ e') = divScaled m e m' e' / m' * 2 ^ divUnit m e m' e' := by
  have hd : divUnit m e m' e' ≤ e - e' := divUnit_le
  unfold divScaled
  generalize divUnit m e m' e' = t at hd
  have hsplit : (2 : ℚ) ^ e = 2 ^ (e - e' - t).toNat * 2 ^ t * 2 ^ e' := by
    rw [← zpow_natCast, ← zpow_add₀ two_ne_zero, ← zpow_add₀ two_ne_zero]
    congr 1
    omega
  have hm' : (m' : ℚ) ≠ 0 := by exact_mod_cast h'.ne'
  rw [Nat.shiftLeft_eq, hsplit]
  push_cast
  field_simp

/-- The note tells whether there is a remainder. -/
theorem accuracyOfFraction_eq_exact_iff (r n : ℕ) : accuracyOfFraction r n = .exact ↔ r = 0 := by
  unfold accuracyOfFraction
  split <;> simp_all

/-- **The value of a quotient of numbers in parts** that is not too large. -/
theorem value_div_parts {h : 0 < m} {h' : 0 < m'}
    (hmax : (m * 2 ^ e : ℚ) / (m' * 2 ^ e') < 2 ^ (1023 : ℤ)) :
    ∃ c, value? (packed (div Format.binary64 (.finite s m e h) (.finite s' m' e' h'))) =
      some (factor (s / s') * c) ∧ Faithful c ((m * 2 ^ e) / (m' * 2 ^ e')) := by
  obtain ⟨hplace, hleast⟩ := le_place_div e e' h h'
  have hvalue := div_eq_scaled m e e' h'
  have hpos : (0 : ℚ) < (m * 2 ^ e : ℚ) / (m' * 2 ^ e') :=
    div_pos (part_pos e h) (part_pos e' h')
  rw [div_finite]
  generalize divUnit m e m' e' = t at *
  generalize divScaled m e m' e' = n at *
  have hunit : (0 : ℚ) < 2 ^ t := by positivity
  have hm' : (0 : ℚ) < m' := by exact_mod_cast h'
  have hwhole : (m' * (n / m' : ℕ) + (n % m' : ℕ) : ℚ) = n := by exact_mod_cast Nat.div_add_mod n m'
  have hrest : ((n % m' : ℕ) : ℚ) < m' := by exact_mod_cast Nat.mod_lt n h'
  refine value_round_note (s / s') hleast hplace hpos ?_ ?_ ?_ hmax
  · rw [hvalue]
    refine mul_le_mul_of_nonneg_right ((le_div_iff₀ hm').mpr ?_) hunit.le
    linarith [(Nat.cast_nonneg (n % m') : (0 : ℚ) ≤ _)]
  · rw [hvalue]
    refine mul_lt_mul_of_pos_right ((div_lt_iff₀ hm').mpr ?_) hunit
    linarith
  · rw [accuracyOfFraction_eq_exact_iff, hvalue, mul_left_inj' hunit.ne', div_eq_iff hm'.ne',
      ← hwhole]
    constructor
    · intro h0
      rw [h0]
      push_cast
      ring
    · intro heq
      have h0 : ((n % m' : ℕ) : ℚ) = 0 := by linarith
      exact_mod_cast h0

end

theorem factor_div (s s' : Sign) : factor (s / s') = factor s / factor s' := by
  have hdiv : s / s' = s * s' := by cases s <;> cases s' <;> rfl
  have hself : factor s' * factor s' = 1 := by cases s' <;> norm_num [factor]
  rw [hdiv, factor_mul, eq_div_iff (left_ne_zero_of_mul_eq_one hself), mul_assoc, hself, mul_one]

/-- **Quotients** pass no number of the format. -/
theorem value_div {x y : Float} {a b : ℚ} (ha : value? x = some a) (hb : value? y = some b)
    (hb0 : b ≠ 0) (hmax : |a / b| < 2 ^ (1023 : ℤ)) :
    ∃ c, value? (x / y) = some c ∧ Faithful c (a / b) := by
  have hdiv : x / y = packed (div Format.binary64 x.toModel.unpack y.toModel.unpack) := rfl
  have hu := valueOf_unpack ha
  have hv := valueOf_unpack hb
  rw [hdiv]
  generalize x.toModel.unpack = u at hu
  generalize y.toModel.unpack = v at hv
  cases v with
  | infinity s' => cases hv
  | notANumber => cases hv
  | zero s' =>
    cases hv
    exact absurd rfl hb0
  | finite s' m' e' h' =>
    cases u with
    | infinity s => cases hu
    | notANumber => cases hu
    | zero s =>
      cases hu
      refine ⟨0, value_packed (u := .zero _) trivial, ?_⟩
      rw [zero_div]
      exact .refl 0
    | finite s m e h =>
      cases hu
      cases hv
      have hquotient : ((s.apply m : ℤ) : ℚ) * 2 ^ e / (((s'.apply m' : ℤ) : ℚ) * 2 ^ e') =
          factor (s / s') * ((m * 2 ^ e) / (m' * 2 ^ e')) := by
        rw [apply_mul, apply_mul, factor_div, mul_div_mul_comm]
      have hpos : (0 : ℚ) ≤ (m * 2 ^ e) / (m' * 2 ^ e') := by positivity
      rw [hquotient, abs_factor_mul, abs_of_nonneg hpos] at hmax
      rw [hquotient]
      obtain ⟨c, hc, hfaithful⟩ := value_div_parts hmax
      exact ⟨_, hc, hfaithful.factor_mul _⟩

/-! ## Levels -/

/-- What has a negative sign stands at zero or below. -/
theorem levelOf_negative {u : UnpackedFloat} (h : signIn u = .negative) :
    ∃ p, levelOf u = some p ∧ p ≤ Level.exact 0 := by
  cases u with
  | notANumber => cases h
  | infinity s =>
    cases h
    exact ⟨⊥, rfl, bot_le⟩
  | zero s => exact ⟨_, rfl, le_refl _⟩
  | finite s m e hm =>
    cases h
    refine ⟨_, rfl, ?_⟩
    have hpos := part_pos e hm
    rw [← not_lt, Level.exact_lt_exact]
    linarith

/-- What has a positive sign stands at zero or above. -/
theorem levelOf_positive {u : UnpackedFloat} {p : Level} (h : signIn u = .positive)
    (hp : levelOf u = some p) : Level.exact 0 ≤ p := by
  cases u with
  | notANumber => cases hp
  | infinity s =>
    cases h
    cases hp
    exact le_top
  | zero s =>
    cases hp
    exact le_refl _
  | finite s m e hm =>
    cases h
    cases hp
    exact (Level.exact_lt_exact.mpr (part_pos e hm)).le

/-- What is packed with a negative sign stands at zero or below. -/
theorem level_packed_negative {u : UnpackedFloat} (h : signIn u = .negative) :
    ∃ p, level (packed u) = some p ∧ p ≤ Level.exact 0 := by
  have hdefined : u ≠ .notANumber := by
    rintro rfl
    cases h
  refine levelOf_negative ?_
  rw [(signIn_unpack (packed u)).resolve_right (packed_defined hdefined), signOf_packed, h]

/-- What has no level is undefined, and the outermost levels are those of the infinities. -/
theorem levelOf_special (u : UnpackedFloat) : (levelOf u = none → u = .notANumber) ∧
    (levelOf u = some ⊤ → u = .infinity .positive) ∧
    (levelOf u = some ⊥ → u = .infinity .negative) := by
  have hexact : ∀ q, Level.exact q ≠ ⊤ ∧ Level.exact q ≠ ⊥ := fun q =>
    ⟨(Level.top_ne_exact q).symm, (Level.bot_ne_exact q).symm⟩
  cases u with
  | notANumber => simp [levelOf]
  | infinity s => cases s <;> simp [levelOf]
  | zero s => simp [levelOf, hexact]
  | finite s m e h => cases s <;> simp [levelOf, hexact]

variable {x y : Float}

/-- **An undefined quotient**: of an undefined number, or of two infinities. -/
theorem level_div_undefined
    (h : level x = none ∨ level y = none ∨ level x = some ⊤ ∧ level y = some ⊥) :
    level (x / y) = none := by
  have hdiv : div Format.binary64 x.toModel.unpack y.toModel.unpack = .notANumber := by
    rcases h with hx | hy | ⟨hx, hy⟩
    · rw [(levelOf_special _).1 hx]
      rfl
    · rw [(levelOf_special _).1 hy]
      cases x.toModel.unpack <;> rfl
    · rw [(levelOf_special _).2.1 hx, (levelOf_special _).2.2 hy]
      rfl
  have hquotient : x / y = packed .notANumber := congrArg packed hdiv
  rw [hquotient]
  exact congrArg levelOf (unpack_packed (u := .notANumber) trivial)

/-- The sign of a quotient of a number that is not negative and one that is: only two infinities
    have none. -/
theorem signIn_div_negative {u v : UnpackedFloat} {p q : Level} (hsign : signIn u = .positive)
    (hu : levelOf u = some p) (hv : levelOf v = some q) (hneg : q < Level.exact 0)
    (hinfinite : p = ⊤ → q ≠ ⊥) : signIn (div Format.binary64 u v) = .negative := by
  cases v with
  | notANumber => cases hv
  | zero s' =>
    cases hv
    exact absurd hneg (lt_irrefl _)
  | infinity s' =>
    cases s' with
    | positive =>
      cases hv
      exact absurd hneg not_top_lt
    | negative =>
      cases u with
      | notANumber => cases hu
      | infinity s =>
        cases hsign
        cases hu
        cases hv
        exact absurd rfl (hinfinite rfl)
      | zero s => cases hsign; rfl
      | finite s m e h => cases hsign; rfl
  | finite s' m' e' h' =>
    cases s' with
    | positive =>
      cases hv
      rw [Level.exact_lt_exact] at hneg
      exact absurd (part_pos e' h') hneg.not_gt
    | negative =>
      cases u with
      | notANumber => cases hu
      | infinity s => cases hsign; rfl
      | zero s => cases hsign; rfl
      | finite s m e h => cases hsign; exact signIn_round _ _ _ _

/-- **A quotient with one negative sign** stands at zero or below. -/
theorem level_div_negative {p q : Level} (hsign : signIn x.toModel.unpack = .positive)
    (hx : level x = some p) (hy : level y = some q) (hneg : q < Level.exact 0)
    (hinfinite : p = ⊤ → q ≠ ⊥) : ∃ r, level (x / y) = some r ∧ r ≤ Level.exact 0 :=
  level_packed_negative (signIn_div_negative hsign hx hy hneg hinfinite)

/-- **A quotient of a number and a larger one** is one at most. -/
theorem level_div_small {a : ℚ} {q : Level} (hx : value? x = some a) (hnonneg : 0 ≤ a)
    (hy : level y = some q) (hlt : Level.exact a < q) :
    ∃ r, level (x / y) = some r ∧ r ≤ Level.exact 1 := by
  have hle : ∀ {c : ℚ}, c ≤ 1 → Level.exact c ≤ Level.exact 1 := by
    intro c hc
    rw [← not_lt, Level.exact_lt_exact]
    exact not_lt.mpr hc
  cases hvalue : value? y with
  | some b =>
    obtain rfl := Option.some.inj (hy.symm.trans (level_of_value hvalue))
    have hab : a < b := Level.exact_lt_exact.mp hlt
    have hpos : 0 < b := hnonneg.trans_lt hab
    have hone : a / b ≤ 1 := (div_le_one hpos).mpr hab.le
    have hmax : |a / b| < 2 ^ (1023 : ℤ) := by
      rw [abs_of_nonneg (div_nonneg hnonneg hpos.le)]
      exact hone.trans_lt (one_lt_zpow₀ one_lt_two (by norm_num))
    obtain ⟨c, hc, hfaithful⟩ := value_div hx hvalue hpos.ne' hmax
    refine ⟨_, level_of_value hc, hle ?_⟩
    have hfits : Fits 1 := by exact_mod_cast fits_whole (n := 1) (by norm_num)
    exact (hfaithful 1 hfits).2 hone
  | none =>
    rcases level_of_no_value hvalue with ⟨hnone, -⟩ | ⟨htop | hbot, -⟩
    · rw [hnone] at hy
      cases hy
    · -- a number divided by infinity is a zero
      have hunpack := valueOf_unpack hx
      have hdiv : x / y = packed (div Format.binary64 x.toModel.unpack y.toModel.unpack) := rfl
      rw [hdiv, (levelOf_special _).2.1 htop]
      refine ⟨Level.exact 0, ?_, hle zero_le_one⟩
      generalize x.toModel.unpack = u at hunpack
      cases u with
      | notANumber => cases hunpack
      | infinity s => cases hunpack
      | zero s => exact congrArg levelOf (unpack_packed (u := .zero _) trivial)
      | finite s m e h => exact congrArg levelOf (unpack_packed (u := .zero _) trivial)
    · obtain rfl := Option.some.inj (hy.symm.trans hbot)
      exact absurd hlt not_lt_bot

end InitialValue.Binary
