/-
  Machine reals through their fields.

  A machine real is a sign bit, an exponent field and the bits below it.  Its operations are
  defined on numbers in parts, `± m · 2 ^ e` with a zero, two infinities and the undefined result
  set apart, so every fact about an operation needs a way from bits to parts and back:

  1. **From bits to parts** — `shape`: the three fields decide which number in parts a machine
     real is.
  2. **From parts to bits** — `fields_packed` and `signOf_packed`; `unpack_packed` for a number that
     is in lowest terms for the format (`Canonical`).
  3. **The exact value** — `value?_eq`: the fraction that `value?` reads off the bits is the value
     of the parts.
-/
import InitialValue.Number.Scalar
import Mathlib

namespace InitialValue.Binary

open Float.Model (UnpackedFloat Format)
open Float.Model.UnpackedFloat

/-! ## The three fields -/

/-- The exponent field. -/
def field (x : Float) : Nat := x.toBits.toNat / 2 ^ 52 % 2 ^ 11

/-- The bits below the exponent field. -/
def low (x : Float) : Nat := x.toBits.toNat % 2 ^ 52

/-- The sign that the topmost bit stands for. -/
def signOf (x : Float) : Sign := if x.toBits.toNat / 2 ^ 63 = 1 then .negative else .positive

/-- The topmost bit of a sign. -/
def signBit : Sign → Nat
  | .positive => 0
  | .negative => 1

theorem low_lt (x : Float) : low x < 2 ^ 52 := Nat.mod_lt _ (by positivity)

theorem toNat_unpackMantissa (b : BitVec Format.binary64.numBits) :
    (unpackMantissa b).toNat = b.toNat % 2 ^ 52 := by
  simp [unpackMantissa, BitVec.extractLsb, BitVec.extractLsb']

theorem toNat_unpackExponent (b : BitVec Format.binary64.numBits) :
    (unpackExponent b).toNat = b.toNat / 2 ^ 52 % 2 ^ 11 := by
  simp [unpackExponent, BitVec.extractLsb, BitVec.extractLsb', Nat.shiftRight_eq_div_pow]

theorem toNat_unpackSign (b : BitVec Format.binary64.numBits) :
    (unpackSign b).toNat = b.toNat / 2 ^ 63 := by
  have h : b.toNat < 2 ^ 64 := b.isLt
  simp only [unpackSign, BitVec.extractLsb, BitVec.extractLsb', BitVec.toNat_cast,
    BitVec.toNat_ofNat, Nat.shiftRight_eq_div_pow]
  show b.toNat / 2 ^ 63 % 2 ^ (63 - 63 + 1) = _
  omega

theorem ofBitVec_unpackSign (x : Float) :
    Sign.ofBitVec (@unpackSign Format.binary64 x.toModel.toBits.toBitVec) = signOf x := by
  have hs : _ = x.toBits.toNat / 2 ^ 63 := toNat_unpackSign x.toModel.toBits.toBitVec
  have hlt : x.toBits.toNat < 2 ^ 64 := x.toBits.toNat_lt
  unfold Sign.ofBitVec signOf
  by_cases h : @unpackSign Format.binary64 x.toModel.toBits.toBitVec = 0#1
  · have h0 : x.toBits.toNat / 2 ^ 63 = 0 := by rw [← hs, h]; rfl
    rw [if_pos h, if_neg (by omega)]
  · have hne : x.toBits.toNat / 2 ^ 63 ≠ 0 := by
      intro h0
      exact h (BitVec.eq_of_toNat_eq (by rw [hs, h0]; rfl))
    have h1 : x.toBits.toNat / 2 ^ 63 = 1 := by omega
    rw [if_neg h, if_pos h1]

/-! ## From bits to parts -/

/-- `Shape x u` — the fields of `x` say that it is the number `u` in parts. -/
inductive Shape (x : Float) : UnpackedFloat → Prop
  | infinity : field x = 2047 → low x = 0 → Shape x (.infinity (signOf x))
  | undefined : field x = 2047 → low x ≠ 0 → Shape x .notANumber
  | zero : field x = 0 → low x = 0 → Shape x (.zero (signOf x))
  | small (m e h) : field x = 0 → m = low x → e = -1074 → Shape x (.finite (signOf x) m e h)
  | normal (m e h) : field x ≠ 0 → field x ≠ 2047 → m = 2 ^ 52 + low x →
      e = (field x : Int) - 1075 → Shape x (.finite (signOf x) m e h)

/-- **The fields decide the parts.** -/
theorem shape (x : Float) : Shape x x.toModel.unpack := by
  have he : _ = field x := toNat_unpackExponent x.toModel.toBits.toBitVec
  have hm : _ = low x := toNat_unpackMantissa x.toModel.toBits.toBitVec
  have hones : (-BitVec.ofNat Format.binary64.exponentBits 1).toNat = 2047 := by decide
  have hbias : Format.binary64.exponentBias = 1023 := by decide
  unfold Float.Model.unpack unpack
  simp only [ofBitVec_unpackSign]
  split
  · rename_i h
    rw [← BitVec.toNat_inj, he, hones] at h
    split
    · rename_i h0
      rw [← BitVec.toNat_inj, hm] at h0
      exact .infinity h h0
    · rename_i h0
      rw [← BitVec.toNat_inj, hm] at h0
      exact .undefined h h0
  · rename_i h
    rw [← BitVec.toNat_inj, he, hones] at h
    split
    · rename_i hz
      rw [← BitVec.toNat_inj, he] at hz
      split
      · rename_i h0
        rw [← BitVec.toNat_inj, hm] at h0
        exact .zero hz h0
      · exact .small _ _ _ hz hm (by rw [he, hbias, hz]; decide)
    · rename_i hz
      rw [← BitVec.toNat_inj, he] at hz
      refine .normal _ _ _ hz h ?_ ?_
      · have hor := Nat.two_pow_add_eq_or_of_lt (low_lt x) 1
        rw [BitVec.toNat_append, hm, Nat.shiftLeft_eq, Nat.mul_comm]
        exact hor.symm.trans (by omega)
      · rw [he, hbias]; omega

/-- In lowest terms for the format: the mantissa has 53 bits, or fewer at the least exponent. -/
def Canonical : UnpackedFloat → Prop
  | .finite _ m e _ => m < 2 ^ 53 ∧ -1074 ≤ e ∧ e ≤ 971 ∧ (2 ^ 52 ≤ m ∨ e = -1074)
  | _ => True

theorem canonical_unpack (x : Float) : Canonical x.toModel.unpack := by
  have h := shape x
  have hlow := low_lt x
  have hfield : field x < 2 ^ 11 := Nat.mod_lt _ (by positivity)
  generalize x.toModel.unpack = u at h ⊢
  cases h with
  | infinity => trivial
  | undefined => trivial
  | zero => trivial
  | small m e h hf hm he => exact ⟨by omega, by omega, by omega, Or.inr he⟩
  | normal m e h hf hf' hm he => exact ⟨by omega, by omega, by omega, Or.inl (by omega)⟩

/-! ## From parts to bits -/

/-- The machine real of a number in parts. -/
def packed (u : UnpackedFloat) : Float := .ofModel (Float.Model.pack u)

theorem toNat_packComponents (s : Sign) (e : BitVec Format.binary64.exponentBits)
    (m : BitVec Format.binary64.mantissaBitsWithoutImplicit) :
    (packComponents Format.binary64 s e m).toNat =
      signBit s * 2 ^ 63 + e.toNat * 2 ^ 52 + m.toNat := by
  have he : e.toNat < 2 ^ 11 := e.isLt
  have hm : m.toNat < 2 ^ 52 := m.isLt
  have hs : s.toBitVec.toNat = signBit s := by cases s <;> rfl
  unfold packComponents
  rw [BitVec.toNat_append, BitVec.toNat_append, hs]
  show (signBit s <<< 11 ||| e.toNat) <<< 52 ||| m.toNat = _
  rw [← Nat.shiftLeft_add_eq_or_of_lt he, ← Nat.shiftLeft_add_eq_or_of_lt hm,
    Nat.shiftLeft_eq, Nat.shiftLeft_eq]
  omega

/-- The sign of a number in parts; the undefined result counts as positive. -/
def signIn : UnpackedFloat → Sign
  | .infinity s => s
  | .zero s => s
  | .finite s _ _ _ => s
  | .notANumber => .positive

/-- A machine real put together from its fields has these fields. -/
theorem fields_packed {u : UnpackedFloat} {s : Sign} {e m : Nat} (he : e < 2 ^ 11)
    (hm : m < 2 ^ 52)
    (hu : pack Format.binary64 u = packComponents Format.binary64 s (.ofNat _ e) (.ofNat _ m)) :
    signOf (packed u) = s ∧ field (packed u) = e ∧ low (packed u) = m := by
  have hbits : (packed u).toBits.toNat = signBit s * 2 ^ 63 + e * 2 ^ 52 + m := by
    show (pack Format.binary64 u).toNat = _
    rw [hu, toNat_packComponents, BitVec.toNat_ofNat, BitVec.toNat_ofNat]
    show _ + e % 2 ^ 11 * _ + m % 2 ^ 52 = _
    rw [Nat.mod_eq_of_lt he, Nat.mod_eq_of_lt hm]
  unfold signOf field low
  rw [hbits]
  cases s with
  | positive =>
    rw [signBit]
    refine ⟨if_neg ?_, ?_, ?_⟩ <;> omega
  | negative =>
    rw [signBit]
    refine ⟨if_pos ?_, ?_, ?_⟩ <;> omega

theorem fields_undefined : signOf (packed .notANumber) = .positive ∧
    field (packed .notANumber) = 2047 ∧ low (packed .notANumber) = 2 ^ 51 := by
  have hpack : pack Format.binary64 .notANumber =
      packComponents Format.binary64 .positive (.ofNat _ 2047) (.ofNat _ (2 ^ 51)) := by decide
  exact fields_packed (by decide) (by decide) hpack

theorem fields_infinity (s : Sign) : signOf (packed (.infinity s)) = s ∧
    field (packed (.infinity s)) = 2047 ∧ low (packed (.infinity s)) = 0 :=
  fields_packed (by decide) (by decide) rfl

theorem fields_zero (s : Sign) : signOf (packed (.zero s)) = s ∧
    field (packed (.zero s)) = 0 ∧ low (packed (.zero s)) = 0 :=
  fields_packed (by decide) (by decide) rfl

theorem mantissaBits_binary64 : Format.binary64.mantissaBitsWithoutImplicit = 52 := rfl

theorem ofNat_of_mod {w a b : Nat} (h : a % 2 ^ w = b % 2 ^ w) :
    BitVec.ofNat w a = BitVec.ofNat w b := by
  apply BitVec.eq_of_toNat_eq
  rw [BitVec.toNat_ofNat, BitVec.toNat_ofNat, h]

/-- The fields of a packed finite number: its sign, and those of an infinity if it is too large. -/
theorem fields_finite (s : Sign) (m : Nat) (e : Int) (h : 0 < m) :
    signOf (packed (.finite s m e h)) = s ∧
      (field (packed (.finite s m e h)) = 2047 → low (packed (.finite s m e h)) = 0) := by
  have hlow : m % 2 ^ 52 < 2 ^ 52 := Nat.mod_lt _ (by positivity)
  have hmant : BitVec.ofNat Format.binary64.mantissaBitsWithoutImplicit m =
      BitVec.ofNat _ (m % 2 ^ 52) := ofNat_of_mod (by rw [mantissaBits_binary64]; omega)
  by_cases hbig : 2 ^ Format.binary64.exponentBits ≤
      (e + Format.binary64.exponentBias + Format.binary64.mantissaBitsWithoutImplicit).toNat + 1
  · have hpack : pack Format.binary64 (.finite s m e h) =
        packComponents Format.binary64 s (.ofNat _ 2047) (.ofNat _ 0) := by
      rw [pack, if_pos hbig]; rfl
    obtain ⟨hs, -, hl⟩ := fields_packed (by decide) (by decide) hpack
    exact ⟨hs, fun _ => hl⟩
  · have hexp : (e + Format.binary64.exponentBias +
        Format.binary64.mantissaBitsWithoutImplicit).toNat + 1 < 2048 := Nat.lt_of_not_le hbig
    by_cases hfull : m.log2 + 1 = Format.binary64.mantissaBits
    · have hpack : pack Format.binary64 (.finite s m e h) =
          packComponents Format.binary64 s (.ofNat _ (e + Format.binary64.exponentBias +
            Format.binary64.mantissaBitsWithoutImplicit).toNat) (.ofNat _ (m % 2 ^ 52)) := by
        rw [pack, if_neg hbig, if_pos hfull, hmant]
      obtain ⟨hs, hf, -⟩ := fields_packed (Nat.lt_of_succ_lt hexp) hlow hpack
      exact ⟨hs, fun _ => by omega⟩
    · have hpack : pack Format.binary64 (.finite s m e h) =
          packComponents Format.binary64 s (.ofNat _ 0) (.ofNat _ (m % 2 ^ 52)) := by
        rw [pack, if_neg hbig, if_neg hfull, hmant]
      obtain ⟨hs, hf, -⟩ := fields_packed (by decide) hlow hpack
      exact ⟨hs, fun _ => by omega⟩

/-- Packing keeps the sign. -/
theorem signOf_packed (u : UnpackedFloat) : signOf (packed u) = signIn u := by
  cases u with
  | notANumber => exact fields_undefined.1
  | infinity s => exact (fields_infinity s).1
  | zero s => exact (fields_zero s).1
  | finite s m e h => exact (fields_finite s m e h).1

/-- What is packed is undefined only if it was. -/
theorem packed_defined {u : UnpackedFloat} (hu : u ≠ .notANumber) :
    (packed u).toModel.unpack ≠ .notANumber := by
  have hshape := shape (packed u)
  intro hundefined
  rw [hundefined] at hshape
  cases hshape with
  | undefined hf hl =>
    cases u with
    | notANumber => exact hu rfl
    | infinity s => exact hl (fields_infinity s).2.2
    | zero s => exact hl (fields_zero s).2.2
    | finite s m e h => exact hl ((fields_finite s m e h).2 hf)

theorem log2_of_normal {m : Nat} (h : 2 ^ 52 ≤ m) (h' : m < 2 ^ 53) : m.log2 = 52 := by
  have hpos : m ≠ 0 := by omega
  exact (Nat.log2_eq_iff hpos).mpr ⟨h, h'⟩

/-- How a finite number in lowest terms is packed: a full mantissa leaves out its first bit, and a
    smaller one is written as it is, under the least exponent. -/
theorem pack_canonical {s : Sign} {m : Nat} {e : Int} {h : 0 < m}
    (hu : Canonical (.finite s m e h)) : pack Format.binary64 (.finite s m e h) =
      if 2 ^ 52 ≤ m then
        packComponents Format.binary64 s (.ofNat _ (e + 1075).toNat) (.ofNat _ (m - 2 ^ 52))
      else packComponents Format.binary64 s (.ofNat _ 0) (.ofNat _ m) := by
  obtain ⟨hm, he, he', hn⟩ := hu
  have hexp : (e + Format.binary64.exponentBias +
      Format.binary64.mantissaBitsWithoutImplicit).toNat = (e + 1075).toNat := by
    show (e + 1023 + 52).toNat = _
    omega
  have hbig : ¬ 2 ^ Format.binary64.exponentBits ≤ (e + Format.binary64.exponentBias +
      Format.binary64.mantissaBitsWithoutImplicit).toNat + 1 := by
    rw [hexp]
    show ¬ 2048 ≤ (e + 1075).toNat + 1
    omega
  split
  · rename_i hfull
    have hmant : BitVec.ofNat Format.binary64.mantissaBitsWithoutImplicit m =
        BitVec.ofNat _ (m - 2 ^ 52) := ofNat_of_mod (by rw [mantissaBits_binary64]; omega)
    have hbits : m.log2 + 1 = Format.binary64.mantissaBits := by
      rw [log2_of_normal hfull hm]
      rfl
    rw [pack, if_neg hbig, if_pos hbits, hexp, hmant]
  · rename_i hsmall
    have hbits : m.log2 + 1 ≠ Format.binary64.mantissaBits := by
      show m.log2 + 1 ≠ 53
      have hlt := Nat.log2_lt (n := m) (k := 52) (by omega)
      omega
    rw [pack, if_neg hbig, if_neg hbits]

/-- **Packing loses nothing** of a number in lowest terms. -/
theorem unpack_packed {u : UnpackedFloat} (hu : Canonical u) :
    (packed u).toModel.unpack = u := by
  have hshape := shape (packed u)
  cases u with
  | notANumber =>
    obtain ⟨-, hf, hl⟩ := fields_undefined
    generalize (packed .notANumber).toModel.unpack = v at hshape ⊢
    cases hshape with
    | undefined => rfl
    | _ => omega
  | infinity s =>
    obtain ⟨hs, hf, hl⟩ := fields_infinity s
    generalize (packed (.infinity s)).toModel.unpack = v at hshape ⊢
    cases hshape with
    | infinity => rw [hs]
    | _ => omega
  | zero s =>
    obtain ⟨hs, hf, hl⟩ := fields_zero s
    generalize (packed (.zero s)).toModel.unpack = v at hshape ⊢
    cases hshape with
    | zero => rw [hs]
    | _ => omega
  | finite s m e h =>
    have hpack := pack_canonical hu
    obtain ⟨hm, he, he', hn⟩ := hu
    split at hpack
    · obtain ⟨hs, hf, hl⟩ := fields_packed (by omega) (by omega) hpack
      generalize (packed (.finite s m e h)).toModel.unpack = v at hshape ⊢
      cases hshape with
      | normal m' e' h' _ _ hm' hexp =>
        rw [hs]
        congr 1 <;> omega
      | _ => omega
    · obtain ⟨hs, hf, hl⟩ := fields_packed (by omega) (by omega) hpack
      generalize (packed (.finite s m e h)).toModel.unpack = v at hshape ⊢
      cases hshape with
      | small m' e' h' _ hm' hexp =>
        rw [hs]
        congr 1 <;> omega
      | _ => omega

end InitialValue.Binary
