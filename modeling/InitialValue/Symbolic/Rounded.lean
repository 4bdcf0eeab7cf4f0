/-
  Binary reals of a chosen precision and unlimited exponent range.

  A `Rounded` is `mant · 2 ^ exp` together with the number of bits it is kept to.  Arithmetic
  is exact arithmetic followed by one rounding to nearest, ties to even, at the larger of the
  precisions; whole numbers and quotients that take part are rounded first.  Values far outside the
  range of machine reals stay finite.
-/
import InitialValue.Binary
import InitialValue.Decimal.Numeral

namespace InitialValue.Symbolic

/-- `mant · 2 ^ exp`, kept to `prec` bits.  `mant` is odd, or zero with `exp` zero. -/
structure Rounded where
  mant : Int
  exp : Int
  prec : Nat
  deriving DecidableEq

namespace Rounded

/-! ## Rounding -/

/-- Moves factors of two from a positive number to the exponent, as often as told. -/
def strip : Nat → Nat → Int → Nat × Int
  | fuel + 1, m, e => if m % 2 = 0 then strip fuel (m / 2) (e + 1) else (m, e)
  | 0, m, e => (m, e)

/-- The quotient `a / b · 2 ^ e` rounded to a precision. -/
def round (prec : Nat) (negative : Bool) (a b : Nat) (e : Int) : Rounded :=
  if a = 0 then ⟨0, 0, prec⟩
  else
    let unit := Binary.exponent a b - (prec : Int) + 1
    let n := Binary.inUnits a b unit
    let (m, k) := strip (prec + 1) n (unit + e)
    ⟨if negative then -(m : Int) else m, k, prec⟩

/-- A quotient rounded to a precision. -/
def ofRat (prec : Nat) (q : Rat) : Rounded := round prec (q.num < 0) q.num.natAbs q.den 0

/-- Another precision. -/
def withPrec (prec : Nat) (x : Rounded) : Rounded :=
  round prec (x.mant < 0) x.mant.natAbs 1 x.exp

/-- The precision that goes with a number of decimal figures. -/
def precFor (figures : Nat) : Nat :=
  ((figures + 1) * 33219280948873626 + 5000000000000000) / 10000000000000000

/-- The number of decimal figures that goes with a precision. -/
def figuresFor (prec : Nat) : Nat :=
  max 1 ((prec * 10000000000000000 + 16609640474436813) / 33219280948873626 - 1)

/-- The value of a decimal numeral: fifteen figures, or as many as are written. -/
def ofNumeral (n : Decimal.Numeral) : Rounded :=
  let written := if n.pointed then n.figures else max n.figures (n.figures + n.scale.toNat)
  let prec := precFor (max 15 written)
  let (a, b) := n.quotient
  round prec false a b 0

/-! ## Questions -/

def isZero (x : Rounded) : Bool := x.mant == 0

def isNegative (x : Rounded) : Bool := x.mant < 0

/-- The largest exponent, of either sign, that is written out. -/
def largestExponent : Nat := 262144

/-- A power of two with an exponent that is cut off where it gets too large to be written out. -/
def twoToThe (e : Int) : Nat := Nat.pow 2 (min e.toNat largestExponent)

/-- The value as a quotient; exact unless the exponent is too large to be written out. -/
def toRat (x : Rounded) : Rat :=
  if 0 ≤ x.exp then ((x.mant * (twoToThe x.exp : Nat) : Int) : Rat)
  else mkRat x.mant (twoToThe (-x.exp))

/-- The exponent of the leading bit; only of use for a value that is not zero. -/
def magnitude (x : Rounded) : Int := (x.mant.natAbs.log2 : Int) + x.exp

/-- Is the value a whole number? -/
def isWhole (x : Rounded) : Bool := 0 ≤ x.exp

/-- The sign: one, zero or minus one. -/
def sign (x : Rounded) : Int := Int.sign x.mant

/-- The order of two values: by sign, then by leading bit, then exactly. -/
def cmp (x y : Rounded) : Ordering :=
  if x.sign != y.sign then compareOfLessAndEq x.sign y.sign
  else if x.isZero then .eq
  else if x.magnitude != y.magnitude then
    if (x.magnitude < y.magnitude) != x.isNegative then .lt else .gt
  else
    let e := min x.exp y.exp
    compareOfLessAndEq (x.mant * Nat.pow 2 (x.exp - e).toNat) (y.mant * Nat.pow 2 (y.exp - e).toNat)

/-- The nearest machine real. -/
def toFloat (x : Rounded) : Float :=
  if x.isZero then 0.0
  else if 1100 < x.magnitude then (if x.isNegative then -1.0 / 0.0 else 1.0 / 0.0)
  else if x.magnitude < -1200 then 0.0
  else if 0 ≤ x.exp then Binary.nearest x.isNegative (x.mant.natAbs * Nat.pow 2 x.exp.toNat) 1
  else Binary.nearest x.isNegative x.mant.natAbs (Nat.pow 2 (-x.exp).toNat)

/-- A machine real with a precision; none for an infinity or an undefined result. -/
def ofFloat? (prec : Nat) (x : Float) : Option Rounded :=
  (Binary.Fraction.ofFloat? x).map fun f => round prec f.negative f.mant 1 f.exp

/-! ## Arithmetic -/

def neg (x : Rounded) : Rounded := { x with mant := -x.mant }

def abs (x : Rounded) : Rounded := { x with mant := x.mant.natAbs }

/-- The sum, rounded once. -/
def add (x y : Rounded) : Rounded :=
  let prec := max x.prec y.prec
  if x.isZero then y.withPrec prec
  else if y.isZero then x.withPrec prec
  else
    -- a value far below the last bit of the other only nudges it
    let room : Int := 2 * (prec : Int) + 8
    let (big, small) := if x.magnitude < y.magnitude then (y, x) else (x, y)
    let small := if small.magnitude + room < big.magnitude then
        ⟨if small.isNegative then -1 else 1, big.magnitude - room, prec⟩ else small
    let e := min big.exp small.exp
    let m := big.mant * Nat.pow 2 (big.exp - e).toNat + small.mant * Nat.pow 2 (small.exp - e).toNat
    round prec (m < 0) m.natAbs 1 e

def mul (x y : Rounded) : Rounded :=
  let m := x.mant * y.mant
  round (max x.prec y.prec) (m < 0) m.natAbs 1 (x.exp + y.exp)

/-- The quotient, for a divisor that is not zero. -/
def div (x y : Rounded) : Rounded :=
  round (max x.prec y.prec) (x.isNegative != y.isNegative) x.mant.natAbs y.mant.natAbs
    (x.exp - y.exp)

/-- The largest exponent that powers are computed for exactly. -/
def exactPower : Nat := 4096

/-- A power by repeated squaring, with some bits to spare. -/
def powBySquaring (base : Rounded) : Nat → Nat → Rounded
  | 0, _ => ⟨1, 0, base.prec⟩
  | fuel + 1, n =>
    if n = 0 then ⟨1, 0, base.prec⟩
    else
      let half := powBySquaring base fuel (n / 2)
      let sq := mul half half
      if n % 2 = 0 then sq else mul sq base

/-- A power with a natural exponent. -/
def powNat (x : Rounded) (n : Nat) : Rounded :=
  if n * x.mant.natAbs.log2 ≤ exactPower * 64 then
    let m := Int.pow x.mant n
    round x.prec (m < 0) m.natAbs 1 (x.exp * n)
  else (powBySquaring (x.withPrec (x.prec + 2 * n.log2 + 16)) (n.log2 + 2) n).withPrec x.prec

/-- A power with a whole exponent, of a value that is not zero. -/
def powInt (x : Rounded) (n : Int) : Rounded :=
  if 0 ≤ n then x.powNat n.toNat
  else div ⟨1, 0, x.prec⟩ ((x.withPrec (x.prec + 8)).powNat n.natAbs) |>.withPrec x.prec

/-- The greatest whole number below. -/
def floor (x : Rounded) : Int :=
  if 0 ≤ x.exp then x.mant * (twoToThe x.exp : Nat)
  else Int.fdiv x.mant (twoToThe (-x.exp) : Nat)

end Rounded

end InitialValue.Symbolic
