/-
  Rounding with halves away from zero.

  `round` takes the whole part of the magnitude and one half and puts the sign back.  That is the
  nearest whole number, and of two the one away from zero (`RoundsAway`), as long as the half does
  not carry where the sum is rounded.  It carries for the numbers in `Misrounded`, and these are the
  only ones that are rounded to something else (`round_away_unless_misrounded`).

  1. **Whole numbers near a rational number** — one half more is the right thing to add.
  2. **The sign** — the answer for a magnitude is mirrored.
-/
import InitialValue.Formula.Calculation
import InitialValue.Proofs.Binary.HalfMore

namespace InitialValue.Formula.Calculation

open Binary (value? CarriesUp HalfMore)

/-! ## Whole numbers near a rational number -/

/-- `r` is what `q` rounds to: a whole number no more than one half away, `q` itself if that is
    whole, and the one further from zero if `q` lies in the middle of two. -/
structure RoundsAway (q : ℚ) (r : ℤ) : Prop where
  near : |(r : ℚ) - q| ≤ 1 / 2
  whole : ∀ n : ℤ, q = n → r = n
  away : |(r : ℚ) - q| = 1 / 2 → |q| < |(r : ℚ)|

namespace RoundsAway

variable {q : ℚ} {r : ℤ}

theorem neg (h : RoundsAway q r) : RoundsAway (-q) (-r) := by
  have hmirror : |((-r : ℤ) : ℚ) - -q| = |(r : ℚ) - q| := by
    rw [Int.cast_neg, ← neg_sub_neg, neg_neg, neg_neg, abs_sub_comm]
  refine ⟨hmirror ▸ h.near, fun n hn => ?_, fun hhalf => ?_⟩
  · rw [h.whole (-n) (by rw [Int.cast_neg, ← hn, neg_neg]), neg_neg]
  · rw [hmirror] at hhalf
    rw [Int.cast_neg, abs_neg, abs_neg]
    exact h.away hhalf

theorem neg_iff : RoundsAway (-q) (-r) ↔ RoundsAway q r := by
  refine ⟨fun h => ?_, neg⟩
  have hback := h.neg
  rwa [neg_neg, neg_neg] at hback

/-- The whole part of a magnitude and one half. -/
theorem floor_add_half (hq : 0 ≤ q) : RoundsAway q ⌊q + 1 / 2⌋ := by
  have hlow := Int.floor_le (q + 1 / 2)
  have hhigh := Int.lt_floor_add_one (q + 1 / 2)
  refine ⟨abs_le.mpr ⟨by linarith, by linarith⟩, ?_, fun hhalf => ?_⟩
  · rintro n rfl
    rw [Int.floor_intCast_add]
    norm_num
  · -- below the middle the whole part would be no more than one half away
    have hup : (⌊q + 1 / 2⌋ : ℚ) - q = 1 / 2 := by
      rcases (abs_eq (by norm_num)).mp hhalf with h | h
      · exact h
      · linarith
    rw [abs_of_nonneg hq, abs_of_nonneg (by linarith)]
    linarith

theorem zero : RoundsAway 0 0 := by
  have hzero := floor_add_half (le_refl 0)
  norm_num at hzero
  exact hzero

/-- One more than that is too far away. -/
theorem not_floor_add_one : ¬ RoundsAway q (⌊q + 1 / 2⌋ + 1) := by
  intro h
  have hhigh := Int.lt_floor_add_one (q + 1 / 2)
  have hnear := (abs_le.mp h.near).2
  push_cast at hnear
  linarith

/-- **A magnitude is rounded right** unless the half carries. -/
theorem floor_iff {c : ℚ} (hq : 0 ≤ q) (h : HalfMore q c) :
    RoundsAway q ⌊c⌋ ↔ ¬ CarriesUp q := by
  by_cases hcarry : CarriesUp q
  · rw [h.carried hcarry]
    exact iff_of_false not_floor_add_one (not_not_intro hcarry)
  · rw [h.plain hcarry]
    exact iff_of_true (floor_add_half hq) hcarry

end RoundsAway

/-! ## The sign -/

/-- The numbers for which one half carries into the next whole number: the greatest one below one
    half, the odd whole numbers of 53 bits, and their opposites. -/
def Misrounded (q : ℚ) : Prop := CarriesUp |q|

theorem not_misrounded_zero : ¬ Misrounded 0 := by
  unfold Misrounded
  rw [abs_zero]
  rintro (hedge | ⟨n, -, hn, -, hzero⟩)
  · norm_num at hedge
  · have hn0 : n = 0 := by exact_mod_cast hzero.symm
    omega

section

variable {x : Float} {q w : ℚ}

/-- The sign of a finite number. -/
theorem signOf_eq (hx : value? x = some q) :
    Quantity.signOf x = if q < 0 then -1.0 else if 0 < q then 1.0 else 0.0 := by
  have hzero : value? 0.0 = some 0 := by decide +kernel
  unfold Quantity.signOf
  simp only [Binary.lt_iff_of_value hx hzero, Binary.lt_iff_of_value hzero hx,
    Binary.isNaN_of_value hx, Bool.false_eq_true, if_false]

/-- Nothing is left of a product with zero. -/
theorem value_zero_mul {y : Float} (hy : value? y = some w) : value? (0.0 * y) = some 0 := by
  have hzero : value? 0.0 = some 0 := by decide +kernel
  have hproduct : |(0 : ℚ) * w| < 2 ^ (1023 : ℤ) := by
    rw [zero_mul, abs_zero]
    positivity
  obtain ⟨c, hc, -, hfaithful⟩ := Binary.value_mul hzero hy hproduct
  rw [zero_mul] at hfaithful
  obtain ⟨hlow, hhigh⟩ := hfaithful 0 Binary.fits_zero
  rw [hc, le_antisymm (hhigh (le_refl 0)) (hlow (le_refl 0))]

/-- **Rounding** is to the nearest whole number, halves away from zero, except for the numbers in
    `Misrounded`. -/
theorem round_away_unless_misrounded (hx : value? x = some q) :
    ∃ y r, callAdded "round" [x] = .ok y ∧ value? y = some ((r : ℤ) : ℚ) ∧
      (RoundsAway q r ↔ ¬ Misrounded q) := by
  obtain ⟨c, hc, hmore⟩ := Binary.value_half_more (Binary.value_abs hx) (abs_nonneg q)
  have hiff := RoundsAway.floor_iff (abs_nonneg q) hmore
  have hwhole := Binary.value_wholeBelow hc
  have hcall : callAdded "round" [x] =
      .ok (Quantity.signOf x * Binary.wholeBelow (x.abs + 0.5)) := rfl
  rw [signOf_eq hx] at hcall
  rcases lt_trichotomy q 0 with hneg | rfl | hpos
  · rw [if_pos hneg] at hcall
    refine ⟨_, -⌊c⌋, hcall, ?_, ?_⟩
    · rw [Binary.value_neg_one_mul hwhole, Int.cast_neg]
    · rw [Misrounded, ← hiff, abs_of_neg hneg, ← RoundsAway.neg_iff, neg_neg]
  · rw [if_neg (lt_irrefl 0), if_neg (lt_irrefl 0)] at hcall
    refine ⟨_, 0, hcall, ?_, ?_⟩
    · rw [value_zero_mul hwhole, Int.cast_zero]
    · exact iff_of_true RoundsAway.zero not_misrounded_zero
  · rw [if_neg hpos.not_gt, if_pos hpos] at hcall
    refine ⟨_, ⌊c⌋, hcall, Binary.value_one_mul hwhole, ?_⟩
    rw [Misrounded, ← hiff, abs_of_pos hpos]

theorem round_two_and_a_half : value? 2.5 = some (5 / 2) ∧
    ∃ y r, callAdded "round" [2.5] = .ok y ∧ value? y = some ((r : ℤ) : ℚ) ∧
      (RoundsAway (5 / 2) r ↔ ¬ Misrounded (5 / 2)) :=
  ⟨by decide +kernel, round_away_unless_misrounded (by decide +kernel)⟩

/-- The greatest number below one half is rounded to one. -/
theorem rounds_up_below_half : ¬ ∀ x q, value? x = some q → ∃ y r,
    callAdded "round" [x] = .ok y ∧ value? y = some ((r : ℤ) : ℚ) ∧ RoundsAway q r := by
  intro hall
  have hx : value? 0.49999999999999994 = some (1 / 2 - 2 ^ (-54 : ℤ)) := by decide +kernel
  have hone : value? (Quantity.roundOf 0.49999999999999994) = some 1 := by decide +kernel
  obtain ⟨y, r, hcall, hy, hround⟩ := hall _ _ hx
  cases hcall
  have hr : (r : ℚ) = 1 := Option.some.inj (hy.symm.trans hone)
  have hnear := (abs_le.mp hround.near).2
  rw [hr] at hnear
  norm_num at hnear

end

end InitialValue.Formula.Calculation
