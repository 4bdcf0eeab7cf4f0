/-
  Adding one half, and the whole part of what comes out.

  The whole part of a number and one half is how numbers are rounded to whole ones, halves upwards.
  The sum is itself rounded, and in a few places that carries it into the next whole number
  (`CarriesUp`): just below one half, and for the odd whole numbers of 53 bits, which have no room
  for a half, so that the sum goes to the even one.

  1. **The nearest mantissa** — `cut_eq_nearest`: what is kept is the nearest whole number, and the
     even one of two.
  2. **Large numbers** — `value_half_more_large`, exactly.
  3. **Small numbers** — `floor_half_more_small`: some number of the format lies between the sum and
     the next whole number, and rounding does not pass it.
  4. **All numbers** — `value_half_more`.
  5. **Whole parts** — `value_wholeBelow`.
-/
import InitialValue.Proofs.Binary.Whole

namespace InitialValue.Binary

open Float.Model (UnpackedFloat Format)
open Float.Model.UnpackedFloat

/-! ## The nearest mantissa -/

/-- What is left of a mantissa after a shift: the last bit that was dropped is the round bit, and
    whether there was one before it is the sticky bit. -/
theorem shiftRight_succ_eq (m k : ℕ) :
    ExtendedMantissa.ofMantissaAndAccuracy m .exact >>> (k + 1) =
      ⟨m / 2 ^ (k + 1), m / 2 ^ k % 2 != 0, m % 2 ^ k != 0⟩ := by
  induction k with
  | zero =>
    show (ExtendedMantissa.mk m false false).shiftRightOne = _
    simp [ExtendedMantissa.shiftRightOne, Nat.mod_one]
  | succ k ih =>
    show (ExtendedMantissa.ofMantissaAndAccuracy m .exact >>> (k + 1)).shiftRightOne = _
    have hmod : m % 2 ^ (k + 1) = m % 2 ^ k + 2 ^ k * (m / 2 ^ k % 2) := Nat.mod_pow_succ
    rw [ih]
    unfold ExtendedMantissa.shiftRightOne
    dsimp only
    rw [Nat.div_div_eq_div_mul, ← pow_succ, hmod]
    congr 1
    rcases Nat.mod_two_eq_zero_or_one (m / 2 ^ k) with h | h <;> rw [h] <;> simp

/-- **Cutting keeps the nearest whole number of last places**, and the even one of two. -/
theorem cut_eq_nearest (m : ℕ) (e : ℤ) : cut m e = Decimal.nearest m (2 ^ excess m e) := by
  unfold cut
  rw [shift_eq]
  dsimp only
  cases excess m e with
  | zero =>
    rw [pow_zero]
    unfold Decimal.nearest
    rw [Nat.div_one, Nat.mod_one]
    rfl
  | succ k =>
    -- the two bits tell on which side of half a place the rest is
    have hmod : m % 2 ^ (k + 1) = m % 2 ^ k + 2 ^ k * (m / 2 ^ k % 2) := Nat.mod_pow_succ
    have hlt := Nat.mod_lt m (Nat.two_pow_pos k)
    rw [shiftRight_succ_eq]
    unfold Decimal.nearest
    dsimp only
    rw [hmod, pow_succ]
    rcases Nat.mod_two_eq_zero_or_one (m / 2 ^ k) with hbit | hbit <;> rw [hbit]
    · rw [if_pos (by omega)]
      cases hrest : m % 2 ^ k != 0 <;> rfl
    · rcases Nat.eq_zero_or_pos (m % 2 ^ k) with hrest | hrest
      · rw [hrest, if_neg (by omega), if_neg (by omega)]
        simp only [ExtendedMantissa.roundedMantissa, ExtendedMantissa.accuracy,
          Accuracy.roundToNearestEven]
        rcases Nat.mod_two_eq_zero_or_one (m / (2 ^ k * 2)) with heven | hodd
        · rw [heven]
          rfl
        · rw [hodd]
          rfl
      · have hne : (m % 2 ^ k != 0) = true := bne_iff_ne.mpr hrest.ne'
        rw [hne, if_neg (by omega), if_pos (by omega)]
        rfl

/-- The nearest whole number to a whole number and a rest. -/
theorem nearest_mul_add (m : ℕ) {b r : ℕ} (hr : r < b) : Decimal.nearest (m * b + r) b =
    if 2 * r < b then m else if b < 2 * r then m + 1 else if m % 2 = 0 then m else m + 1 := by
  have hdiv : (m * b + r) / b = m := by
    rw [mul_comm, Nat.mul_add_div (by omega), Nat.div_eq_of_lt hr, Nat.add_zero]
  have hmod : (m * b + r) % b = r := by
    rw [mul_comm, Nat.mul_add_mod, Nat.mod_eq_of_lt hr]
  unfold Decimal.nearest
  rw [hdiv, hmod]

/-! ## Large numbers -/

theorem normalize_natCast {n : ℕ} (hn : 0 < n) (e : ℤ) (s : Sign) :
    normalize Format.binary64 n e s = round Format.binary64 .positive n e := by
  have hpos : (n : ℤ) > 0 := by exact_mod_cast hn
  unfold UnpackedFloat.normalize
  rw [Int.compare_eq_gt.mpr hpos]
  rfl

/-- One half, in parts, added to a whole number of last places: the sum is exact before it is
    rounded. -/
theorem add_half_large {m k : ℕ} (h : 0 < m) :
    add Format.binary64 (.finite .positive m k h) (.finite .positive (2 ^ 52) (-53) (by decide)) =
      round Format.binary64 .positive (m * 2 ^ (k + 53) + 2 ^ 52) (-53) := by
  have hmin : min (k : ℤ) (-53) = -53 := by omega
  have hshift : (decreaseExponent m k (-53)).1 = m * 2 ^ (k + 53) := by
    have hexp : ((k : ℤ) - -53).toNat = k + 53 := by omega
    show m <<< ((k : ℤ) - -53).toNat = _
    rw [Nat.shiftLeft_eq, hexp]
  have hhalf : (decreaseExponent (2 ^ 52) (-53) (-53)).1 = 2 ^ 52 := by decide
  simp only [UnpackedFloat.add, Sign.apply]
  rw [hmin, hshift, hhalf, ← Nat.cast_add]
  exact normalize_natCast (by positivity) (-53) .positive

/-- A full mantissa, moved up to where a half is a whole number, stays in front of it. -/
theorem log2_add_half {m : ℕ} (hge : 2 ^ 52 ≤ m) (hlt : m < 2 ^ 53) (k : ℕ) :
    (m * 2 ^ (k + 53) + 2 ^ 52).log2 = k + 105 := by
  have hrest : 2 ^ 52 < 2 ^ (k + 53) := Nat.pow_lt_pow_right (by decide) (by omega)
  rw [Nat.log2_eq_iff (by positivity)]
  constructor
  · calc 2 ^ (k + 105) = 2 ^ 52 * 2 ^ (k + 53) := by rw [← pow_add]; congr 1; omega
      _ ≤ m * 2 ^ (k + 53) := Nat.mul_le_mul_right _ hge
      _ ≤ m * 2 ^ (k + 53) + 2 ^ 52 := Nat.le_add_right _ _
  · calc m * 2 ^ (k + 53) + 2 ^ 52 < (m + 1) * 2 ^ (k + 53) := by rw [add_mul]; omega
      _ ≤ 2 ^ 53 * 2 ^ (k + 53) := Nat.mul_le_mul_right _ hlt
      _ = 2 ^ (k + 105 + 1) := by rw [← pow_add]; congr 1; omega

/-- Of the half, nothing is left but a tie where the mantissa is of whole numbers. -/
theorem cut_add_half {m k : ℕ} (hexcess : excess (m * 2 ^ (k + 53) + 2 ^ 52) (-53) = k + 53) :
    cut (m * 2 ^ (k + 53) + 2 ^ 52) (-53) = if k = 0 ∧ m % 2 = 1 then m + 1 else m := by
  have hrest : 2 ^ 52 < 2 ^ (k + 53) := Nat.pow_lt_pow_right (by decide) (by omega)
  rw [cut_eq_nearest, hexcess, nearest_mul_add m hrest]
  cases k with
  | zero => grind
  | succ k =>
    have hless : 2 * 2 ^ 52 < 2 ^ (k + 1 + 53) := by
      rw [← pow_succ']
      exact Nat.pow_lt_pow_right (by decide) (by omega)
    rw [if_pos hless, if_neg (by omega)]

/-- **From `2 ^ 52` on**, a half is half of the last place or less: nothing comes of it but that an
    odd mantissa of whole numbers becomes the even one above. -/
theorem value_half_more_large {y : Float} {m k : ℕ} {h : 0 < m}
    (hu : y.toModel.unpack = .finite .positive m k h) : value? (y + 0.5) =
      some (((if k = 0 ∧ m % 2 = 1 then m + 1 else m : ℕ) : ℚ) * 2 ^ k) := by
  have hcanonical := canonical_unpack y
  rw [hu] at hcanonical
  obtain ⟨hlt, -, hmax, hfull⟩ := hcanonical
  have hge : 2 ^ 52 ≤ m := hfull.resolve_right (by omega)
  have hsum : y + 0.5 = packed (add Format.binary64 y.toModel.unpack
      (.finite .positive (2 ^ 52) (-53) (by decide))) := rfl
  have hplace : place (m * 2 ^ (k + 53) + 2 ^ 52) (-53) = k := by
    unfold place
    rw [log2_add_half hge hlt]
    push_cast
    omega
  have hexcess : excess (m * 2 ^ (k + 53) + 2 ^ 52) (-53) = k + 53 := by
    unfold excess
    omega
  have hcut := cut_add_half hexcess
  have hlast : place (m * 2 ^ (k + 53) + 2 ^ 52) (-53) ≤ 970 ∨
      place (m * 2 ^ (k + 53) + 2 ^ 52) (-53) = 971 ∧
        cut (m * 2 ^ (k + 53) + 2 ^ 52) (-53) < 2 ^ 53 := by
    rw [hplace, hcut]
    split_ifs <;> omega
  rw [hsum, hu, add_half_large, round_of_place _ (by omega),
    value_round_of_place .positive (by positivity) (by omega) hlast, hcut, hplace, factor, one_mul,
    zpow_natCast]

/-! ## Small numbers -/

/-- Rounding does not change the whole part if there is a number of the format up to the next whole
    number. -/
theorem floor_of_faithful {c v r : ℚ} (hc : Faithful c v) (hsize : |⌊v⌋| < 2 ^ 53) (hr : Fits r)
    (hle : v ≤ r) (hlt : r < ⌊v⌋ + 1) : ⌊c⌋ = ⌊v⌋ :=
  Int.floor_eq_iff.mpr
    ⟨(hc _ (fits_whole hsize)).1 (Int.floor_le v), ((hc r hr).2 hle).trans_lt hlt⟩

theorem fits_div {n : ℤ} {k : ℕ} (hn : |n| < 2 ^ 53) (hk : k ≤ 1074) : Fits (n / 2 ^ k) :=
  ⟨n, -k, hn, by omega, by rw [zpow_neg, zpow_natCast, div_eq_mul_inv]⟩

section

variable {m k : ℕ}

/-- Between a fraction and the next whole number lies the one that is a last place below it, if there
    is a place left for it. -/
theorem exists_fits_of_room {a n j : Nat} (hhigh : a < (n + 1) * 2 ^ (j + 1)) (hj : j + 1 ≤ 53)
    (hroom : (n + 1) * 2 ^ (j + 1) ≤ 2 ^ 53) :
    ∃ r : ℚ, Fits r ∧ (a : ℚ) / 2 ^ (j + 1) ≤ r ∧ r < n + 1 := by
  have hpos : (0 : ℚ) < 2 ^ (j + 1) := by positivity
  have hpred : (a : ℤ) ≤ (n + 1) * 2 ^ (j + 1) - 1 :=
    Int.le_sub_one_of_lt (by exact_mod_cast hhigh)
  have hroom' : ((n + 1) * 2 ^ (j + 1) : ℤ) ≤ 2 ^ 53 := by exact_mod_cast hroom
  refine ⟨(((n + 1) * 2 ^ (j + 1) - 1 : ℤ) : ℚ) / 2 ^ (j + 1), fits_div ?_ (by omega), ?_, ?_⟩
  · rw [abs_of_nonneg (by omega)]
    omega
  · exact div_le_div_of_nonneg_right (by exact_mod_cast hpred) hpos.le
  · rw [div_lt_iff₀ hpos]
    push_cast
    linarith

/-- Otherwise the half before the next whole number does, for a fraction that lies at most as far
    above its whole part as a numerator of 53 bits lets it. -/
theorem exists_fits_of_full {a n j m : Nat} (hm : m < 2 ^ 53) (ha : a = m + 2 ^ j)
    (hlow : n * 2 ^ (j + 1) ≤ a) (hj : j + 1 ≤ 53) (hj' : 1 ≤ j)
    (hfull : ¬ (n + 1) * 2 ^ (j + 1) ≤ 2 ^ 53) :
    ∃ r : ℚ, Fits r ∧ (a : ℚ) / 2 ^ (j + 1) ≤ r ∧ r < n + 1 := by
  have hpos : (0 : ℚ) < 2 ^ (j + 1) := by positivity
  have hpow : 2 ^ (52 - j) * 2 ^ (j + 1) = 2 ^ 53 := by
    rw [← pow_add]
    congr 1
    omega
  -- the whole part has all the bits of the numerator, so it has one to spare for a half
  have hge : 2 ^ (52 - j) ≤ n := by
    by_contra hlt
    exact hfull (hpow ▸ Nat.mul_le_mul_right _ (by omega))
  have hwhole : 2 ^ 53 ≤ n * 2 ^ (j + 1) := hpow ▸ Nat.mul_le_mul_right _ hge
  have hdouble : 2 ^ (j + 1) = 2 ^ j * 2 := pow_succ 2 j
  have hless : n < 2 ^ 52 := by
    have hmul : n * 2 ^ (j + 1) < (2 ^ (52 - j) + 1) * 2 ^ (j + 1) := by
      rw [add_mul, hpow]
      omega
    have hn' : n < 2 ^ (52 - j) + 1 := Nat.lt_of_mul_lt_mul_right hmul
    have hpow' : 2 ^ (52 - j) ≤ 2 ^ 51 := Nat.pow_le_pow_right (by decide) (by omega)
    omega
  have hhalf : 2 * a ≤ (2 * n + 1) * 2 ^ (j + 1) := by
    have hexpand : (2 * n + 1) * 2 ^ (j + 1) = 2 * (n * 2 ^ (j + 1)) + 2 ^ (j + 1) := by ring
    omega
  refine ⟨((2 * n + 1 : ℤ) : ℚ) / 2 ^ 1, fits_div ?_ (by omega), ?_, ?_⟩
  · rw [abs_of_nonneg (by omega)]
    omega
  · rw [div_le_div_iff₀ hpos (by norm_num), pow_one, mul_comm]
    exact_mod_cast hhalf
  · push_cast
    linarith

/-- **Numbers from one half on**: the number one last place below the next whole number lies
    between, or, if there is no place left for it, the half before it. -/
theorem exists_fits_above_of_places (hm : m < 2 ^ 53) (hk : 2 ≤ k) (hk' : k ≤ 53) :
    ∃ r, Fits r ∧ (m : ℚ) / 2 ^ k + 1 / 2 ≤ r ∧ r < ⌊(m : ℚ) / 2 ^ k + 1 / 2⌋ + 1 := by
  obtain ⟨j, rfl⟩ : ∃ j, k = j + 1 := ⟨k - 1, by omega⟩
  have hpos : (0 : ℚ) < 2 ^ (j + 1) := by positivity
  have hvalue : (m : ℚ) / 2 ^ (j + 1) + 1 / 2 = (m + 2 ^ j : ℕ) / 2 ^ (j + 1) := by
    push_cast
    rw [pow_succ]
    field_simp
  obtain ⟨n, hn⟩ : ∃ n, (m + 2 ^ j) / 2 ^ (j + 1) = n := ⟨_, rfl⟩
  have hlow : n * 2 ^ (j + 1) ≤ m + 2 ^ j := hn ▸ Nat.div_mul_le_self _ _
  have hhigh : m + 2 ^ j < (n + 1) * 2 ^ (j + 1) :=
    (Nat.div_lt_iff_lt_mul (Nat.two_pow_pos _)).mp (by omega)
  have hfloor : ⌊(m : ℚ) / 2 ^ (j + 1) + 1 / 2⌋ = n := by
    rw [hvalue, Int.floor_eq_iff, le_div_iff₀ hpos, div_lt_iff₀ hpos]
    exact ⟨by exact_mod_cast hlow, by exact_mod_cast hhigh⟩
  rw [hfloor, hvalue]
  by_cases hroom : (n + 1) * 2 ^ (j + 1) ≤ 2 ^ 53
  · exact exists_fits_of_room hhigh hk' hroom
  · exact exists_fits_of_full hm rfl hlow hk' (by omega) hroom

/-- **Numbers below one half**: all but the greatest stay below one. -/
theorem exists_fits_above_of_small (hm : m < 2 ^ 53) (hk : 54 ≤ k)
    (hedge : (m : ℚ) / 2 ^ k ≠ 1 / 2 - 2 ^ (-54 : ℤ)) :
    ∃ r, Fits r ∧ (m : ℚ) / 2 ^ k + 1 / 2 ≤ r ∧ r < ⌊(m : ℚ) / 2 ^ k + 1 / 2⌋ + 1 := by
  have hfloor : (0 : ℚ) ≤ ⌊(m : ℚ) / 2 ^ k + 1 / 2⌋ := by
    exact_mod_cast Int.floor_nonneg.mpr (by positivity)
  have hbound : (m : ℚ) / 2 ^ k ≤ 1 / 2 - 2 ^ (-53 : ℤ) := by
    rcases eq_or_lt_of_le hk with rfl | hlt
    · have hne : m ≠ 2 ^ 53 - 1 := by
        rintro rfl
        exact hedge (by norm_num)
      have hle : (m : ℚ) ≤ 2 ^ 53 - 2 := by
        have hle' : m + 2 ≤ 2 ^ 53 := by omega
        have hcast : (m : ℚ) + 2 ≤ 2 ^ 53 := by exact_mod_cast hle'
        linarith
      rw [div_le_iff₀ (by positivity)]
      norm_num at hle ⊢
      linarith
    · have hpow : (2 : ℚ) ^ 55 ≤ 2 ^ k := pow_le_pow_right₀ one_le_two hlt
      have hm' : (m : ℚ) < 2 ^ 53 := by exact_mod_cast hm
      calc (m : ℚ) / 2 ^ k ≤ 2 ^ 53 / 2 ^ 55 :=
            div_le_div₀ (by positivity) hm'.le (by positivity) hpow
        _ ≤ 1 / 2 - 2 ^ (-53 : ℤ) := by norm_num
  refine ⟨((2 ^ 53 - 1 : ℤ) : ℚ) / 2 ^ 53, fits_div (by norm_num) (by omega), ?_, ?_⟩
  · norm_num at hbound ⊢
    linarith
  · calc ((2 ^ 53 - 1 : ℤ) : ℚ) / 2 ^ 53 < 1 := by norm_num
      _ ≤ ⌊(m : ℚ) / 2 ^ k + 1 / 2⌋ + 1 := by linarith

/-- A number of whole halves stays one when a half is added. -/
theorem fits_half_more (hm : m < 2 ^ 53) : Fits ((m : ℚ) / 2 ^ 1 + 1 / 2) := by
  rcases eq_or_lt_of_le (Nat.succ_le_of_lt hm) with heq | hlt
  · -- all of them make a whole number with a single bit
    have hvalue : (m : ℚ) / 2 ^ 1 + 1 / 2 = ((2 ^ 52 : ℤ) : ℚ) := by
      have hcast : (m : ℚ) + 1 = 2 ^ 53 := by exact_mod_cast heq
      push_cast
      linarith
    rw [hvalue]
    exact fits_whole (by norm_num)
  · have hvalue : (m : ℚ) / 2 ^ 1 + 1 / 2 = ((m + 1 : ℤ) : ℚ) / 2 ^ 1 := by
      push_cast
      ring
    rw [hvalue]
    refine fits_div ?_ (by omega)
    rw [abs_of_nonneg (by omega)]
    exact_mod_cast hlt

theorem exists_fits_above (hm : m < 2 ^ 53) (hk : 1 ≤ k)
    (hedge : (m : ℚ) / 2 ^ k ≠ 1 / 2 - 2 ^ (-54 : ℤ)) :
    ∃ r, Fits r ∧ (m : ℚ) / 2 ^ k + 1 / 2 ≤ r ∧ r < ⌊(m : ℚ) / 2 ^ k + 1 / 2⌋ + 1 := by
  rcases eq_or_lt_of_le hk with rfl | hk
  · exact ⟨_, fits_half_more hm, le_refl _, Int.lt_floor_add_one _⟩
  · rcases Nat.lt_or_ge k 54 with hlt | hge
    · exact exists_fits_above_of_places hm hk (by omega)
    · exact exists_fits_above_of_small hm hge hedge

/-- **Below `2 ^ 52`**, the whole part of the sum is what it is without rounding, but for the
    greatest number below one half. -/
theorem floor_half_more_small {y : Float} (hm : m < 2 ^ 53) (hk : 1 ≤ k)
    (hy : value? y = some ((m : ℚ) / 2 ^ k))
    (hedge : (m : ℚ) / 2 ^ k ≠ 1 / 2 - 2 ^ (-54 : ℤ)) :
    ∃ c, value? (y + 0.5) = some c ∧ ⌊c⌋ = ⌊(m : ℚ) / 2 ^ k + 1 / 2⌋ := by
  have hhalf : value? 0.5 = some (1 / 2) := by decide +kernel
  have hnonneg : 0 ≤ (m : ℚ) / 2 ^ k + 1 / 2 := by positivity
  have hbound : (m : ℚ) / 2 ^ k + 1 / 2 < 2 ^ 53 := by
    have hm' : (m : ℚ) < 2 ^ 53 := by exact_mod_cast hm
    have hdiv : (m : ℚ) / 2 ^ k ≤ m / 2 ^ 1 :=
      div_le_div_of_nonneg_left (by positivity) (by positivity)
        (pow_le_pow_right₀ one_le_two hk)
    linarith
  have hmax : |(m : ℚ) / 2 ^ k + 1 / 2| < 2 ^ (1023 : ℤ) := by
    rw [abs_of_nonneg hnonneg]
    refine hbound.trans ?_
    exact_mod_cast pow_lt_pow_right₀ one_lt_two (by norm_num : 53 < 1023)
  obtain ⟨r, hr, hle, hlt⟩ := exists_fits_above hm hk hedge
  obtain ⟨c, hc, -, hfaithful⟩ := value_add hy hhalf hmax
  refine ⟨c, hc, floor_of_faithful hfaithful ?_ hr hle hlt⟩
  rw [abs_of_nonneg (Int.floor_nonneg.mpr hnonneg)]
  exact Int.floor_lt.mpr (by exact_mod_cast hbound)

end

/-! ## All numbers -/

/-- Where a half carries a number into the next whole one: for the greatest number below one half,
    and for the odd ones among the whole numbers that have no room for a half. -/
def CarriesUp (a : ℚ) : Prop :=
  a = 1 / 2 - 2 ^ (-54 : ℤ) ∨ ∃ n : ℕ, n % 2 = 1 ∧ 2 ^ 52 ≤ n ∧ n < 2 ^ 53 ∧ a = n

/-- The greatest number below one half has only one form. -/
theorem parts_of_edge {m k : ℕ} (hm : m < 2 ^ 53) (hfull : 2 ^ 52 ≤ m ∨ k = 1074)
    (h : (m : ℚ) / 2 ^ k = 1 / 2 - 2 ^ (-54 : ℤ)) : m = 2 ^ 53 - 1 ∧ k = 54 := by
  have hcross : m * 2 ^ 54 + 2 ^ k = 2 ^ 53 * 2 ^ k := by
    have hpow : (2 : ℚ) ^ (-54 : ℤ) = 1 / 2 ^ 54 := by norm_num
    rw [div_eq_iff (by positivity), hpow] at h
    refine Nat.cast_injective (R := ℚ) ?_
    push_cast
    rw [h]
    ring
  have hle : k ≤ 54 := by
    by_contra hlt
    have hpow : 2 ^ 55 ≤ 2 ^ k := Nat.pow_le_pow_right (by decide) (Nat.lt_of_not_le hlt)
    linarith
  have hge : 54 ≤ k := by
    by_contra hlt
    have hless : k ≤ 53 := Nat.le_of_lt_succ (Nat.lt_of_not_le hlt)
    have hpow : 2 ^ k ≤ 2 ^ 53 := Nat.pow_le_pow_right (by decide) hless
    rcases hfull with hfull | rfl
    · linarith
    · exact absurd hless (by decide)
  obtain rfl : k = 54 := le_antisymm hle hge
  exact ⟨by omega, rfl⟩

theorem carriesUp_large {m k : ℕ} (hm : 2 ^ 52 ≤ m) (hm' : m < 2 ^ 53) :
    CarriesUp ((m : ℚ) * 2 ^ k) ↔ k = 0 ∧ m % 2 = 1 := by
  constructor
  · rintro (hedge | ⟨n, hodd, hn, hn', heq⟩)
    · have hge : (2 : ℚ) ^ 52 * 1 ≤ m * 2 ^ k :=
        mul_le_mul (by exact_mod_cast hm) (one_le_pow₀ one_le_two) zero_le_one (by positivity)
      norm_num at hedge hge
      linarith
    · have hwhole : m * 2 ^ k = n := by exact_mod_cast heq
      cases k with
      | zero =>
        rw [pow_zero, mul_one] at hwhole
        exact ⟨rfl, hwhole ▸ hodd⟩
      | succ k =>
        have hpow := Nat.one_le_two_pow (n := k)
        have hmul := Nat.mul_le_mul hm hpow
        rw [pow_succ, ← mul_assoc] at hwhole
        omega
  · rintro ⟨rfl, hodd⟩
    exact Or.inr ⟨m, hodd, hm, hm', by rw [pow_zero, mul_one]⟩

theorem carriesUp_small {m k : ℕ} (hm : m < 2 ^ 53) (hk : 1 ≤ k) :
    CarriesUp ((m : ℚ) / 2 ^ k) ↔ (m : ℚ) / 2 ^ k = 1 / 2 - 2 ^ (-54 : ℤ) := by
  refine ⟨?_, Or.inl⟩
  rintro (hedge | ⟨n, -, hn, -, heq⟩)
  · exact hedge
  · have hm' : (m : ℚ) < 2 ^ 53 := by exact_mod_cast hm
    have hn' : (2 : ℚ) ^ 52 ≤ n := by exact_mod_cast hn
    have hdiv : (m : ℚ) / 2 ^ k ≤ m / 2 ^ 1 :=
      div_le_div_of_nonneg_left (by positivity) (by positivity)
        (pow_le_pow_right₀ one_le_two hk)
    linarith

theorem floor_natCast_add_half (n : ℕ) : ⌊(n : ℚ) + 1 / 2⌋ = n := by
  rw [Int.floor_natCast_add]
  norm_num

/-- What the whole part of `c` is if `c` is `a` and one half, rounded. -/
structure HalfMore (a c : ℚ) : Prop where
  plain : ¬ CarriesUp a → ⌊c⌋ = ⌊a + 1 / 2⌋
  carried : CarriesUp a → ⌊c⌋ = ⌊a + 1 / 2⌋ + 1

variable {y : Float} {a : ℚ}

theorem halfMore_large {m k : ℕ} {h : 0 < m}
    (hu : y.toModel.unpack = .finite .positive m k h) :
    ∃ c, value? (y + 0.5) = some c ∧ HalfMore (m * 2 ^ k) c := by
  have hcanonical := canonical_unpack y
  rw [hu] at hcanonical
  obtain ⟨hlt, -, -, hfull⟩ := hcanonical
  have hiff := carriesUp_large (k := k) (hfull.resolve_right (by omega)) hlt
  refine ⟨_, value_half_more_large hu, fun hplain => ?_, fun hcarried => ?_⟩
  · have hfloor := floor_natCast_add_half (m * 2 ^ k)
    rw [if_neg (hiff.not.mp hplain)]
    push_cast at hfloor
    rw [hfloor]
    exact_mod_cast Int.floor_natCast (m * 2 ^ k)
  · obtain ⟨rfl, hodd⟩ := hiff.mp hcarried
    rw [if_pos ⟨rfl, hodd⟩, pow_zero, mul_one, mul_one, floor_natCast_add_half,
      Int.floor_natCast, Nat.cast_succ]

theorem halfMore_small {m k : ℕ} (hm : m < 2 ^ 53) (hk : 1 ≤ k)
    (hy : value? y = some ((m : ℚ) / 2 ^ k)) (hedge : (m : ℚ) / 2 ^ k ≠ 1 / 2 - 2 ^ (-54 : ℤ)) :
    ∃ c, value? (y + 0.5) = some c ∧ HalfMore (m / 2 ^ k) c := by
  obtain ⟨c, hc, hfloor⟩ := floor_half_more_small hm hk hy hedge
  exact ⟨c, hc, fun _ => hfloor, fun hcarried => absurd ((carriesUp_small hm hk).mp hcarried) hedge⟩

/-- The greatest number below one half becomes one. -/
theorem halfMore_edge {h : 0 < 2 ^ 53 - 1}
    (hu : y.toModel.unpack = .finite .positive (2 ^ 53 - 1) (-54) h) :
    ∃ c, value? (y + 0.5) = some c ∧ HalfMore (1 / 2 - 2 ^ (-54 : ℤ)) c := by
  have hsum : y + 0.5 = packed (add Format.binary64 y.toModel.unpack
      (.finite .positive (2 ^ 52) (-53) (by decide))) := rfl
  have hone : value? (packed (add Format.binary64
      (.finite .positive (2 ^ 53 - 1) (-54) (by decide))
      (.finite .positive (2 ^ 52) (-53) (by decide)))) = some 1 := by decide +kernel
  refine ⟨1, by rw [hsum, hu, hone], fun hplain => absurd (Or.inl rfl) hplain, fun _ => ?_⟩
  norm_num

/-- **The whole part of a number and one half**, where the sum is rounded: that of the exact sum, or
    one more where the half carries. -/
theorem value_half_more (hy : value? y = some a) (ha : 0 ≤ a) :
    ∃ c, value? (y + 0.5) = some c ∧ HalfMore a c := by
  have hcanonical := canonical_unpack y
  have hvalue := valueOf_unpack hy
  cases hparts : y.toModel.unpack with
  | infinity s => rw [hparts] at hvalue; cases hvalue
  | notANumber => rw [hparts] at hvalue; cases hvalue
  | zero s =>
    rw [hparts] at hvalue
    cases hvalue
    have hzero : ((0 : ℕ) : ℚ) / 2 ^ 1 = 0 := by norm_num
    rw [← hzero] at hy ⊢
    exact halfMore_small (by norm_num) (le_refl 1) hy (by norm_num)
  | finite s m e h =>
    rw [hparts] at hvalue hcanonical
    obtain ⟨hlt, hmin, hmax, hfull⟩ := hcanonical
    cases s with
    | negative =>
      cases hvalue
      have hpos : (0 : ℚ) < m * 2 ^ e := by positivity
      rw [apply_mul, factor, neg_one_mul] at ha
      exact absurd ha (by linarith)
    | positive =>
      obtain rfl : m * 2 ^ e = a := by
        rw [← Option.some.inj hvalue, apply_mul, factor, one_mul]
      rcases le_or_gt 0 e with hge | hneg
      · obtain ⟨k, rfl⟩ := Int.eq_ofNat_of_zero_le hge
        rw [zpow_natCast]
        exact halfMore_large hparts
      · obtain ⟨k, rfl⟩ : ∃ k : ℕ, e = -k := ⟨(-e).toNat, by omega⟩
        have hquotient : (m : ℚ) * 2 ^ (-(k : ℤ)) = m / 2 ^ k := by
          rw [zpow_neg, zpow_natCast, div_eq_mul_inv]
        rw [hquotient] at hy ⊢
        by_cases hedge : (m : ℚ) / 2 ^ k = 1 / 2 - 2 ^ (-54 : ℤ)
        · obtain ⟨rfl, rfl⟩ := parts_of_edge hlt (by omega) hedge
          rw [hedge]
          exact halfMore_edge hparts
        · exact halfMore_small hlt (by omega) hy hedge

/-! ## Whole parts -/

/-- The machine real of a whole number of 53 bits is that number. -/
theorem value_ofRat_whole {n : ℤ} (h : |n| < 2 ^ 53) : value? (ofRat n) = some (n : ℚ) := by
  have hfinite : (nearest (decide (n < 0)) n.natAbs 1).isFinite = true := by
    rw [Int.abs_eq_natAbs] at h
    have hnat : n.natAbs < 2 ^ 53 := by exact_mod_cast h
    rw [nearest_isFinite_iff _ Nat.one_pos, Nat.cast_one, mul_one]
    calc (n.natAbs : ℚ) < 2 ^ (53 : ℤ) := by exact_mod_cast hnat
      _ ≤ 2 ^ (52 : ℤ) * 2 ^ (971 : ℤ) := two_zpow_le_scaled (by norm_num)
      _ ≤ range := range_bounds.1
  have hwhole : ofInt? n = some (ofRat n) := by
    unfold ofInt? ofRat
    rw [Rat.num_intCast, Rat.den_intCast]
    exact if_pos hfinite
  obtain ⟨c, hc, -, hexact⟩ := value_whole hwhole
  rw [hc, hexact h]

/-- A number of the format with a fraction has fewer than 53 bits in front of it. -/
theorem abs_floor_lt_of_fits {b : ℚ} (hb : Fits b) (hden : b.den ≠ 1) : |⌊b⌋| < 2 ^ 53 := by
  obtain ⟨m, g, hm, -, rfl⟩ := hb
  rcases le_or_gt 0 g with hge | hneg
  · obtain ⟨k, rfl⟩ := Int.eq_ofNat_of_zero_le hge
    have hwhole : (m : ℚ) * 2 ^ (k : ℤ) = ((m * 2 ^ k : ℤ) : ℚ) := by push_cast; rfl
    rw [hwhole] at hden
    exact absurd (Rat.den_intCast _) hden
  · have hhalf : (2 : ℚ) ^ g ≤ 2 ^ (-1 : ℤ) := zpow_le_zpow_right₀ one_le_two (by omega)
    have hm' : |(m : ℚ)| ≤ 2 ^ 53 := by exact_mod_cast hm.le
    have hpos : (0 : ℚ) < 2 ^ g := by positivity
    have hbound : |(m : ℚ) * 2 ^ g| ≤ 2 ^ 52 :=
      calc |(m : ℚ) * 2 ^ g| = |(m : ℚ)| * 2 ^ g := by rw [abs_mul, abs_of_pos hpos]
        _ ≤ 2 ^ 53 * 2 ^ (-1 : ℤ) := mul_le_mul hm' hhalf hpos.le (by positivity)
        _ = 2 ^ 52 := by norm_num
    obtain ⟨hlow, hhigh⟩ := abs_le.mp hbound
    have hfloor : -2 ^ 52 ≤ ⌊(m : ℚ) * 2 ^ g⌋ := Int.le_floor.mpr (by push_cast; exact hlow)
    have hfloor' : ⌊(m : ℚ) * 2 ^ g⌋ < 2 ^ 52 + 1 :=
      Int.floor_lt.mpr (by push_cast; linarith)
    rw [abs_lt]
    omega

/-- **The greatest whole number that is not above a finite machine real** is a machine real. -/
theorem value_wholeBelow {x : Float} {b : ℚ} (hx : value? x = some b) :
    value? (wholeBelow x) = some (⌊b⌋ : ℚ) := by
  unfold wholeBelow
  rw [hx]
  dsimp only
  split_ifs with hden
  · have hwhole : (b.num : ℚ) = b := Rat.coe_int_num_of_den_eq_one hden
    rw [hx, ← hwhole, Int.floor_intCast]
  · exact value_ofRat_whole (abs_floor_lt_of_fits (fits_value hx) hden)

end InitialValue.Binary
