/-
  Exact numbers with infinities.

  Exact rationals leave out what makes derivatives of machine reals hard to trust: they can be
  infinite or undefined.  `Extended` adds just that.  Finite numbers are rationals and nothing is
  rounded; the infinities and the undefined number combine as those of machine reals do, except that
  there is one zero only, which counts as positive.  So a right-hand side may answer with anything
  here, and what is computed from finite answers is exact all the same.
-/
import InitialValue.Proofs.Number.Faithful

namespace InitialValue

/-- A rational, an infinity, or the undefined number. -/
inductive Extended where
  | finite (q : ℚ)
  | infinite (negative : Bool)
  | undefined
  deriving Repr, DecidableEq

namespace Extended

open Level (exact)

/-! ## Order -/

/-- Where a number stands. -/
def level : Extended → Option Level
  | .finite q => some (exact q)
  | .infinite true => some ⊥
  | .infinite false => some ⊤
  | .undefined => none

def isNegative : Extended → Bool
  | .finite q => q < 0
  | .infinite negative => negative
  | .undefined => false

def magnitude : Extended → Extended
  | .finite q => .finite |q|
  | .infinite _ => .infinite false
  | .undefined => .undefined

/-! ## Arithmetic -/

def neg : Extended → Extended
  | .finite q => .finite (-q)
  | .infinite negative => .infinite !negative
  | .undefined => .undefined

/-- The sum; opposite infinities have none. -/
def add : Extended → Extended → Extended
  | .finite a, .finite b => .finite (a + b)
  | .infinite s, .finite _ => .infinite s
  | .finite _, .infinite s => .infinite s
  | .infinite s, .infinite s' => if s = s' then .infinite s else .undefined
  | _, _ => .undefined

/-- The product; an infinity and zero have none. -/
def mul : Extended → Extended → Extended
  | .finite a, .finite b => .finite (a * b)
  | .undefined, _ => .undefined
  | _, .undefined => .undefined
  | a, b =>
    if a = .finite 0 ∨ b = .finite 0 then .undefined
    else .infinite (a.isNegative != b.isNegative)

/-- The quotient; zero has none by itself, nor have two infinities. -/
def div : Extended → Extended → Extended
  | .finite a, .finite b =>
    if b ≠ 0 then .finite (a / b) else if a = 0 then .undefined else .infinite (a < 0)
  | .finite _, .infinite _ => .finite 0
  | .infinite s, .finite b => .infinite (s != decide (b < 0))
  | _, _ => .undefined

/-- The number as written in messages. -/
def text : Extended → String
  | .finite q => Scalar.text q
  | .infinite true => "-inf"
  | .infinite false => "inf"
  | .undefined => "nan"

instance : Scalar Extended where
  add := add
  sub a b := add a (neg b)
  mul := mul
  div := div
  neg := neg
  ofScientific m s e := .finite (OfScientific.ofScientific m s e)
  ofInt? n := some (.finite n)
  ofQuotient? a b := some (.finite (a / b))
  read? s := (Scalar.read? s).map .finite
  compare? a b := Level.order? a.level b.level
  compareInt? a n := Level.order? a.level (some (exact n))
  isFinite a := a matches .finite _
  magnitude := magnitude
  floor
    | .finite q => q.floor
    | _ => 0
  missing := .undefined
  text := text
  brief := text
  padded := text

/-! ## Laws -/

theorem sub_finite (a b : ℚ) : (Extended.finite a - Extended.finite b) = .finite (a - b) := by
  show Extended.finite (a + -b) = _
  rw [sub_eq_add_neg]

/-- A magnitude scaled by a positive number is not below zero. -/
theorem not_below_zero (h : Extended) :
    Scalar.lt (1e-9 * Scalar.magnitude h) (Extended.finite 0) = false := by
  rw [Bool.eq_false_iff]
  intro hlt
  obtain ⟨p, q, hp, hq, hpq⟩ := Level.order?_lt_iff.mp (beq_iff_eq.mp hlt)
  cases hq
  cases h with
  | finite x =>
    cases hp
    rw [Level.exact_lt_exact] at hpq
    exact absurd hpq (not_lt.mpr (mul_nonneg (by norm_num) (abs_nonneg x)))
  | infinite negative =>
    have htop : (1e-9 * Scalar.magnitude (.infinite negative) : Extended) = .infinite false := by
      show mul (.finite 1e-9) (.infinite false) = _
      decide +kernel
    rw [htop] at hp
    cases hp
    exact absurd hpq not_top_lt
  | undefined => cases hp

theorem not_ahead (x h d : Extended) (hx : Scalar.isFinite x = true) (hd : d = 1.0 ∨ d = -1.0) :
    Scalar.lt (1e-9 * Scalar.magnitude h) (d * (x - x)) = false := by
  cases x with
  | finite q =>
    have hzero : d * (Extended.finite q - Extended.finite q) = .finite 0 := by
      rw [sub_finite, sub_self]
      rcases hd with rfl | rfl
      · exact congrArg finite (mul_zero (1.0 : ℚ))
      · exact congrArg finite (mul_zero (-1.0 : ℚ))
    rw [hzero]
    exact not_below_zero h
  | infinite _ => cases hx
  | undefined => cases hx

theorem level_magnitude (x : Extended) (q : ℚ) (h : x.level = some (exact q)) :
    x.magnitude.level = some (exact |q|) := by
  cases x with
  | finite p =>
    have hpq : p = q := by simpa [level, exact] using h
    rw [hpq]
    rfl
  | infinite negative => cases negative <;> simp [level] at h
  | undefined => cases h

instance : Scalar.Ordered Extended where
  level := level
  compare?_eq _ _ := rfl
  compareInt?_eq _ _ := rfl
  level_of_isFinite x h := by
    cases x with
    | finite q => exact ⟨q, rfl⟩
    | infinite _ => cases h
    | undefined => cases h
  level_magnitude := level_magnitude
  level_zero := Exact.level_zero
  not_ahead := not_ahead

instance : Scalar.Faithful Extended where
  ofRat := finite
  level_ofRat _ := rfl
  eq_ofRat x q h := by
    cases x with
    | finite p =>
      have heq : some (exact p) = some (exact q) := h
      have hpq : p = q := by simpa [exact] using heq
      rw [hpq]
    | infinite negative =>
      have heq : level (.infinite negative) = some (exact q) := h
      cases negative <;> simp [level] at heq
    | undefined => cases h
  isFinite_ofRat _ := rfl
  ofInt?_eq _ := rfl
  ofQuotient?_eq _ _ _ := rfl
  ofScientific_eq _ _ _ := rfl
  sub_ofRat := sub_finite
  div_ofRat a b hb := if_pos hb

end Extended

end InitialValue
