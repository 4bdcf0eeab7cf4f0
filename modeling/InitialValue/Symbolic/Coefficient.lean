/-
  Coefficients: the numbers inside terms, which are exact quotients or binary reals.

  Quotients are combined exactly.  As soon as a binary real takes part the result is one, at its
  precision; only a result that is zero becomes the exact zero.  Numbers of the two kinds are never
  the same number, but they are put in order by their values.
-/
import InitialValue.Symbolic.Rounded

namespace InitialValue.Symbolic

/-- A number inside a term. -/
inductive Coefficient where
  | rat (q : Rat)
  | real (x : Rounded)
  deriving DecidableEq

namespace Coefficient

def zero : Coefficient := .rat 0

def one : Coefficient := .rat 1

def half : Coefficient := .rat (1 / 2)

def ofInt (n : Int) : Coefficient := .rat n

/-- A binary real as a number, zero made exact. -/
def ofRounded (x : Rounded) : Coefficient := if x.isZero then .zero else .real x

/-! ## Questions -/

def isZero : Coefficient → Bool
  | .rat q => q == 0
  | .real x => x.isZero

def isNegative : Coefficient → Bool
  | .rat q => q < 0
  | .real x => x.isNegative

def isPositive (n : Coefficient) : Bool := !n.isNegative && !n.isZero

def isReal : Coefficient → Bool
  | .rat _ => false
  | .real _ => true

/-- The exact value. -/
def toRat : Coefficient → Rat
  | .rat q => q
  | .real x => x.toRat

/-- The value as a whole number, of an exact one. -/
def whole? : Coefficient → Option Int
  | .rat q => if q.den = 1 then some q.num else none
  | .real _ => none

/-- An exact quotient. -/
def rat? : Coefficient → Option Rat
  | .rat q => some q
  | .real _ => none

/-- The nearest machine real. -/
def toFloat : Coefficient → Float
  | .rat q => Binary.ofRat q
  | .real x => x.toFloat

/-- The order of two values.  Exact quotients are made binary with bits to spare when they meet a
    binary real. -/
def cmp : Coefficient → Coefficient → Ordering
  | .rat a, .rat b => compareOfLessAndEq a b
  | .real x, .real y => x.cmp y
  | .rat a, .real y => (Rounded.ofRat (y.prec + 64) a).cmp y
  | .real x, .rat b => x.cmp (Rounded.ofRat (x.prec + 64) b)

def lt (a b : Coefficient) : Bool := a.cmp b == .lt

def le (a b : Coefficient) : Bool := a.cmp b != .gt

/-! ## Arithmetic -/

/-- An operation on numbers of either kind from one on quotients and one on binary reals. -/
def lift (f : Rat → Rat → Rat) (g : Rounded → Rounded → Rounded) :
    Coefficient → Coefficient → Coefficient
  | .rat a, .rat b => .rat (f a b)
  | .real x, .real y => ofRounded (g x y)
  | .rat a, .real y => ofRounded (g (Rounded.ofRat y.prec a) y)
  | .real x, .rat b => ofRounded (g x (Rounded.ofRat x.prec b))

def add : Coefficient → Coefficient → Coefficient := lift (· + ·) Rounded.add

def mul : Coefficient → Coefficient → Coefficient := lift (· * ·) Rounded.mul

/-- The quotient, for a divisor that is not zero. -/
def div : Coefficient → Coefficient → Coefficient := lift (· / ·) Rounded.div

def neg : Coefficient → Coefficient
  | .rat q => .rat (-q)
  | .real x => .real x.neg

def abs (n : Coefficient) : Coefficient := if n.isNegative then n.neg else n

/-- A power with a whole exponent, of a number that is not zero. -/
def powInt : Coefficient → Int → Coefficient
  | .rat q, n => .rat (if 0 ≤ n then q ^ n.toNat else (q⁻¹) ^ n.natAbs)
  | .real x, n => .real (x.powInt n)

/-- The greatest whole number below. -/
def floor : Coefficient → Int
  | .rat q => q.floor
  | .real x => x.floor

/-- What is left of a number after taking away whole multiples of a divisor that is not zero; it
    has the sign of the divisor.  Nothing is left of a binary real whose rounded quotient by another
    one is whole. -/
def mod (a b : Coefficient) : Coefficient :=
  let p := a.toRat
  let q := b.toRat
  let r := p - q * ((p / q).floor : Int)
  match a, b with
  | .rat _, .rat _ => .rat r
  | .real x, .rat _ => ofRounded (Rounded.ofRat x.prec r)
  | .rat _, .real y => ofRounded (Rounded.ofRat y.prec r)
  | .real x, .real y =>
    if (x.div y).toRat.den = 1 then .zero else ofRounded (Rounded.ofRat (max x.prec y.prec) r)

end Coefficient

end InitialValue.Symbolic
