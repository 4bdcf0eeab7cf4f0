/-
  The machine real of a whole number.

  `value_whole`: the machine real that stands for a whole number is that number up to rounding, and
  exactly that number as long as it has no more bits than the format.
  Its fields are read off the bits that `nearest` puts together, a mantissa that has carried to
  `2 ^ 53` included.  The sign goes its own way.
-/
import InitialValue.Proofs.Binary.Arithmetic
import InitialValue.Proofs.Binary.Nearest

namespace InitialValue.Binary

/-- The factor of a sign bit. -/
def signed (negative : Bool) : ℚ := if negative then -1 else 1

theorem abs_signed_mul (negative : Bool) (x : ℚ) : |signed negative * x| = |x| := by
  cases negative <;> simp [signed]

/-- The value of bits with a given exponent field that is neither the least nor the greatest. -/
theorem value_ofBits {u : UInt64} {s : Bool} {f l : ℕ} (hf : 0 < f) (hf' : f < 2047)
    (hl : l < 2 ^ 52) (hu : u.toNat = f * 2 ^ 52 + l + if s then 2 ^ 63 else 0) :
    value? (Float.ofBits u) =
      some (signed s * ((2 ^ 52 + (l : ℚ)) * 2 ^ ((f : ℤ) - 1075))) := by
  have hfield : u.toNat / 2 ^ 52 % 2 ^ 11 = f := by split at hu <;> omega
  have hlow : u.toNat % 2 ^ 52 = l := by split at hu <;> omega
  have hsign : (u.toNat / 2 ^ 63 == 1) = s := by
    cases s with
    | false =>
      have hzero : u.toNat / 2 ^ 63 = 0 := by simp only [Bool.false_eq_true, if_false] at hu; omega
      rw [hzero]
      rfl
    | true =>
      have hone : u.toNat / 2 ^ 63 = 1 := by simp only [if_true] at hu; omega
      rw [hone]
      rfl
  have hvalid : Float.Model.Format.binary64.Valid u.toBitVec := by
    refine ⟨fun hexp _ => ?_⟩
    have hones : (-BitVec.ofNat Float.Model.Format.binary64.exponentBits 1).toNat = 2047 := by
      decide
    rw [← BitVec.toNat_inj, toNat_unpackExponent, hones] at hexp
    have he : u.toNat / 2 ^ 52 % 2 ^ 11 = 2047 := hexp
    omega
  have hpacked : Float.ofBits u = packed (Float.ofModel ⟨u, hvalid⟩).toModel.unpack := rfl
  rw [hpacked, value_packed (canonical_unpack _), ← value?_eq]
  have hx : (Float.ofModel ⟨u, hvalid⟩).toBits = u := rfl
  have hfield' : field (Float.ofModel ⟨u, hvalid⟩) = f := hfield
  have hlow' : low (Float.ofModel ⟨u, hvalid⟩) = l := hlow
  unfold value?
  rw [ofFloat?_eq, hfield', hlow', if_neg hf'.ne, if_neg hf.ne', hx, hsign, Option.map_some,
    toRat_eq]
  congr 1
  unfold signed
  push_cast
  ring

theorem exponent_whole {n : ℕ} (hn : n ≠ 0) : exponent n 1 = n.log2 := by
  have hone : (1 : ℕ).log2 = 0 := by decide
  have hself := Nat.log2_self_le hn
  unfold exponent
  simp only [hone, Nat.cast_zero, sub_zero, Int.natCast_nonneg, if_true, Int.toNat_natCast,
    Nat.pow_eq, one_mul]
  rw [if_neg (by omega)]

section

variable {n : ℕ}

/-- A unit in the last place of a whole number is small beside it. -/
theorem unit_le (hn : n ≠ 0) : (2 : ℚ) ^ ((n.log2 : ℤ) - 52) ≤ 2 ^ (-52 : ℤ) * n := by
  have heq : (2 : ℚ) ^ ((n.log2 : ℤ) - 52) = 2 ^ (-52 : ℤ) * 2 ^ (n.log2 : ℤ) := by
    rw [← zpow_add₀ two_ne_zero, neg_add_eq_sub]
  rw [heq]
  exact mul_le_mul_of_nonneg_left (log2_bounds hn).1 (by positivity)

/-- The mantissa of a whole number has 53 bits, up to a carry. -/
theorem units_whole (hn : n ≠ 0) : 2 ^ 52 ≤ inUnits n 1 ((n.log2 : ℤ) - 52) ∧
    inUnits n 1 ((n.log2 : ℤ) - 52) ≤ 2 ^ 53 := by
  obtain ⟨hlow, hhigh⟩ := log2_bounds hn
  have hsplit : (2 : ℚ) ^ (n.log2 : ℤ) = 2 ^ (52 : ℤ) * 2 ^ ((n.log2 : ℤ) - 52) := by
    rw [← zpow_add₀ two_ne_zero, add_sub_cancel]
  have hdouble : (2 : ℚ) ^ ((n.log2 : ℤ) + 1) = 2 * 2 ^ (n.log2 : ℤ) := by
    rw [zpow_add₀ two_ne_zero, zpow_one, mul_comm]
  have hpos : (0 : ℚ) < 2 ^ ((n.log2 : ℤ) - 52) := by positivity
  constructor
  · refine le_inUnits Nat.one_pos (by norm_num) ?_
    push_cast
    linarith
  · refine inUnits_le Nat.one_pos ?_
    push_cast
    linarith

theorem magnitudeBits_whole (hn : n ≠ 0) : magnitudeBits n 1 =
    min (2047 * 2 ^ 52) ((n.log2 + 1022) * 2 ^ 52 + inUnits n 1 ((n.log2 : ℤ) - 52)) := by
  have hmax : max (n.log2 : ℤ) (-1022) = n.log2 := by omega
  have htoNat : ((n.log2 : ℤ) + 1022).toNat = n.log2 + 1022 := by omega
  unfold magnitudeBits
  rw [if_neg hn, exponent_whole hn]
  dsimp only
  rw [hmax, htoNat]

/-- The value of bits that are put together from an exponent and a mantissa, which may have
    carried. -/
theorem value_ofUnits {u : UInt64} {s : Bool} {k m : ℕ} (hm : 2 ^ 52 ≤ m) (hm' : m ≤ 2 ^ 53)
    (hfinite : (k + 1022) * 2 ^ 52 + m < 2047 * 2 ^ 52)
    (hu : u.toNat = (k + 1022) * 2 ^ 52 + m + if s then 2 ^ 63 else 0) :
    value? (Float.ofBits u) = some (signed s * (m * 2 ^ ((k : ℤ) - 52))) := by
  rcases Nat.lt_or_ge m (2 ^ 53) with hlt | hge
  · have hsum : (k + 1022) * 2 ^ 52 + m = (k + 1023) * 2 ^ 52 + (m - 2 ^ 52) := by omega
    have hmantissa : (2 ^ 52 + ((m - 2 ^ 52 : ℕ) : ℚ)) = m := by
      rw [Nat.cast_sub hm]
      push_cast
      ring
    have hexp : ((k + 1023 : ℕ) : ℤ) - 1075 = (k : ℤ) - 52 := by
      push_cast
      ring
    rw [hsum] at hu
    rw [value_ofBits (by omega) (by omega) (by omega) hu, hmantissa, hexp]
  · -- the carry goes into the exponent and leaves no bit behind
    obtain rfl : m = 2 ^ 53 := by omega
    have hsum : (k + 1022) * 2 ^ 52 + 2 ^ 53 = (k + 1024) * 2 ^ 52 + 0 := by omega
    have hmantissa : (2 ^ 52 + ((0 : ℕ) : ℚ)) * 2 ^ (1 : ℤ) = ((2 ^ 53 : ℕ) : ℚ) := by norm_num
    have hexp : ((k + 1024 : ℕ) : ℤ) - 1075 = 1 + ((k : ℤ) - 52) := by
      push_cast
      ring
    rw [hsum] at hu
    rw [value_ofBits (by omega) (by omega) (by omega) hu, hexp, zpow_add₀ two_ne_zero,
      ← mul_assoc (2 ^ 52 + _), hmantissa]

theorem value_nearest_whole {negative : Bool} (hn : n ≠ 0)
    (hfinite : (nearest negative n 1).isFinite = true) :
    value? (nearest negative n 1) = some (signed negative *
      (inUnits n 1 ((n.log2 : ℤ) - 52) * 2 ^ ((n.log2 : ℤ) - 52))) := by
  rw [nearest_isFinite_iff negative Nat.one_pos, ← magnitudeBits_lt_iff Nat.one_pos] at hfinite
  obtain ⟨hunits, hunits'⟩ := units_whole hn
  have hbits := magnitudeBits_whole hn
  rw [nearest_eq]
  have htoNat : (UInt64.ofNat (magnitudeBits n 1 + if negative then 2 ^ 63 else 0)).toNat =
      magnitudeBits n 1 + if negative then 2 ^ 63 else 0 :=
    UInt64.toNat_ofNat_of_lt' (by show _ < 2 ^ 64; split_ifs <;> omega)
  have hmin : magnitudeBits n 1 =
      (n.log2 + 1022) * 2 ^ 52 + inUnits n 1 ((n.log2 : ℤ) - 52) := by omega
  rw [hmin] at htoNat hfinite ⊢
  exact value_ofUnits hunits hunits' hfinite htoNat

theorem near_units (hn : n ≠ 0) :
    Near (inUnits n 1 ((n.log2 : ℤ) - 52) * 2 ^ ((n.log2 : ℤ) - 52)) n := by
  obtain ⟨hlow, hhigh⟩ := inUnits_bounds (a := n) (b := 1) ((n.log2 : ℤ) - 52) Nat.one_pos
  have habs : |(n : ℚ)| = n := abs_of_nonneg (Nat.cast_nonneg n)
  have hpos : (0 : ℚ) < 2 ^ ((n.log2 : ℤ) - 52) := by positivity
  unfold Near
  rw [habs]
  rw [Nat.cast_one, mul_one] at hlow hhigh
  refine le_trans (abs_le.mpr ⟨?_, ?_⟩) (unit_le hn) <;> linarith

/-- A whole number of 53 bits is a whole number of units. -/
theorem units_exact (hn : n ≠ 0) (hlt : n < 2 ^ 53) :
    (inUnits n 1 ((n.log2 : ℤ) - 52) * 2 ^ ((n.log2 : ℤ) - 52) : ℚ) = n := by
  obtain ⟨hlow, hhigh⟩ := inUnits_bounds (a := n) (b := 1) ((n.log2 : ℤ) - 52) Nat.one_pos
  have hlog : n.log2 ≤ 52 := Nat.lt_succ_iff.mp ((Nat.log2_lt hn).mpr hlt)
  have hpos : (0 : ℚ) < 2 ^ ((n.log2 : ℤ) - 52) := by positivity
  have hsplit : (n : ℚ) = (n * 2 ^ (52 - n.log2) : ℕ) * 2 ^ ((n.log2 : ℤ) - 52) := by
    rw [Nat.cast_mul, Nat.cast_pow, Nat.cast_ofNat, mul_assoc, ← zpow_natCast,
      ← zpow_add₀ two_ne_zero, Nat.cast_sub hlog]
    simp
  rw [Nat.cast_one, mul_one] at hlow hhigh
  generalize n * 2 ^ (52 - n.log2) = units at hsplit
  rw [hsplit] at hlow hhigh
  have hlow' : (inUnits n 1 ((n.log2 : ℤ) - 52) : ℚ) < units + 1 := by
    linarith [le_of_mul_le_mul_right hlow hpos]
  have hhigh' : (units : ℚ) < inUnits n 1 ((n.log2 : ℤ) - 52) + 1 := by
    linarith [le_of_mul_le_mul_right hhigh hpos]
  have heq : inUnits n 1 ((n.log2 : ℤ) - 52) = units :=
    le_antisymm (Nat.lt_succ_iff.mp (by exact_mod_cast hlow'))
      (Nat.lt_succ_iff.mp (by exact_mod_cast hhigh'))
  rw [heq, ← hsplit]

end

/-- **The machine real of a whole number** is that number up to rounding, and it is that number
    when the format has the bits for it. -/
theorem value_whole {n : ℤ} {x : Float} (h : ofInt? n = some x) :
    ∃ c, value? x = some c ∧ Near c n ∧ (|n| < 2 ^ 53 → c = n) := by
  unfold ofInt? at h
  dsimp only at h
  split_ifs at h with hfinite
  obtain rfl := Option.some.inj h
  rcases eq_or_ne n 0 with rfl | hn
  · refine ⟨0, by decide +kernel, ?_, fun _ => Int.cast_zero.symm⟩
    rw [Int.cast_zero]
    exact Near.refl 0
  have hne : n.natAbs ≠ 0 := Int.natAbs_ne_zero.mpr hn
  have hnear := near_units hne
  have hsign : (n : ℚ) = signed (decide (n < 0)) * n.natAbs := by
    unfold signed
    rw [Nat.cast_natAbs, Int.cast_abs]
    rcases lt_or_ge n 0 with hneg | hpos
    · have hneg' : (n : ℚ) < 0 := by exact_mod_cast hneg
      rw [if_pos (decide_eq_true hneg), abs_of_neg hneg']
      ring
    · have hpos' : (0 : ℚ) ≤ n := by exact_mod_cast hpos
      rw [if_neg (by simpa using hpos), abs_of_nonneg hpos', one_mul]
  refine ⟨_, value_nearest_whole hne hfinite, ?_, fun hlt => ?_⟩
  · unfold Near at hnear ⊢
    rw [hsign, ← mul_sub, abs_signed_mul, abs_signed_mul]
    exact hnear
  · rw [Int.abs_eq_natAbs] at hlt
    rw [units_exact hne (by exact_mod_cast hlt), ← hsign]

end InitialValue.Binary
