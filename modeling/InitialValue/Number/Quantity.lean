/-
  Quantities, as machine arithmetic handles them.

  A quantity is a whole number, a machine real or a complex number.  Reals and complex numbers are
  strict or lenient: a strict one comes from a constant, and dividing it by zero or raising it out
  of range fails; a lenient one comes from a variable or from a function, and follows the rules of
  machine arithmetic, in which such results are infinite or undefined.  One lenient operand makes
  the whole operation lenient.
-/
import InitialValue.Number.Complex
import InitialValue.Decimal.Layout
import InitialValue.Fault

namespace InitialValue

/-- A value of machine arithmetic. -/
inductive Quantity where
  | whole (n : Int)
  | strict (x : Float)
  | lenient (x : Float)
  | complex (z : Complex) (isLenient : Bool)

/-- Two operands brought to one kind. -/
inductive Operands where
  | wholes (m n : Int)
  | stricts (x y : Float)
  | lenients (x y : Float)
  | complexes (z w : Complex) (areLenient : Bool)

namespace Quantity

/-! ## Kinds -/

/-- Does the quantity follow the rules of machine arithmetic throughout? -/
def isLenient : Quantity → Bool
  | .whole _ => false
  | .strict _ => false
  | .lenient _ => true
  | .complex _ l => l

/-- The real value; a whole number may be too large for one. -/
def toFloat : Quantity → Except Foreign Float
  | .whole n => (Binary.ofInt? n).elim (.error .outOfRange) .ok
  | .strict x => .ok x
  | .lenient x => .ok x
  | .complex _ _ => .error .wrongType

/-- The complex value. -/
def toComplex : Quantity → Except Foreign Complex
  | .complex z _ => .ok z
  | q => q.toFloat.map .ofReal

/-- A real of one sort. -/
def real (isLenient : Bool) (x : Float) : Quantity := if isLenient then .lenient x else .strict x

/-- Two quantities as operands of one kind. -/
def operands (a b : Quantity) : Except Foreign Operands :=
  match a, b with
  | .whole m, .whole n => .ok (.wholes m n)
  | .complex z l, b => do return .complexes z (← b.toComplex) (l || b.isLenient)
  | a, .complex w l => do return .complexes (← a.toComplex) w (a.isLenient || l)
  | a, b => do
    let x ← a.toFloat
    let y ← b.toFloat
    return if a.isLenient || b.isLenient then .lenients x y else .stricts x y

/-! ## Arithmetic -/

/-- An operation that cannot fail, on every kind of operands. -/
def combine (onWholes : Int → Int → Int) (onReals : Float → Float → Float)
    (onComplex : Complex → Complex → Complex) (a b : Quantity) : Except Foreign Quantity := do
  match ← operands a b with
  | .wholes m n => return .whole (onWholes m n)
  | .stricts x y => return .strict (onReals x y)
  | .lenients x y => return .lenient (onReals x y)
  | .complexes z w l => return .complex (onComplex z w) l

def add : Quantity → Quantity → Except Foreign Quantity := combine (· + ·) (· + ·) Complex.add

def mul : Quantity → Quantity → Except Foreign Quantity := combine (· * ·) (· * ·) Complex.mul

def neg : Quantity → Quantity
  | .whole n => .whole (-n)
  | .strict x => .strict (-x)
  | .lenient x => .lenient (-x)
  | .complex z l => .complex z.neg l

/-- The quotient.  Two whole numbers are divided exactly and rounded once. -/
def div (a b : Quantity) : Except Foreign Quantity := do
  match ← operands a b with
  | .wholes m n =>
    if n = 0 then throw .divisionByZero
    let x := Binary.nearest (decide (m < 0) != decide (n < 0)) m.natAbs n.natAbs
    if x.isFinite then return .strict x else throw .outOfRange
  | .stricts x y => if y == 0.0 then throw .divisionByZero else return .strict (x / y)
  | .lenients x y => return .lenient (x / y)
  | .complexes z w l =>
    if !l && w.re == 0.0 && w.im == 0.0 then throw .divisionByZero
    else return .complex (z.div w) l

/-- A power of strict reals: a negative base has a complex value unless the exponent is whole. -/
def strictPower (x y : Float) : Except Foreign Quantity :=
  if x == 0.0 && y < 0.0 then .error .divisionByZero
  else if x < 0.0 && y.isFinite && x.isFinite && y.floor != y then
    .ok (.complex (Complex.pow (.ofReal x) (.ofReal y)) false)
  else
    let r := x.pow y
    if x.isFinite && y.isFinite && !r.isFinite then .error .outOfRange else .ok (.strict r)

/-- The power. -/
def power (a b : Quantity) : Except Foreign Quantity := do
  match ← operands a b with
  | .wholes m n =>
    if 0 ≤ n then return .whole (Int.pow m n.toNat)
    else strictPower (← (Quantity.whole m).toFloat) (← (Quantity.whole n).toFloat)
  | .stricts x y => strictPower x y
  | .lenients x y => return .lenient (x.pow y)
  | .complexes z w l =>
    if !l && z.re == 0.0 && z.im == 0.0 && (w.re < 0.0 || w.im != 0.0) then throw .divisionByZero
    else return .complex (z.pow w) l

/-! ## Remainders -/

/-- The remainder of machine reals, exact, with the sign of the divisor; undefined for a divisor
    that is zero and for a dividend that is infinite. -/
def remainderOf (x y : Float) : Float :=
  if y.isInf && x.isFinite then (if x == 0.0 || (x < 0.0) == (y < 0.0) then x else y)
  else
    match Binary.value? x, Binary.value? y with
    | some p, some q =>
      if q = 0 then 0.0 / 0.0
      else
        let n : Int := (p / q).floor
        let r := p - q * n
        if r = 0 && q < 0 then -0.0 else Binary.ofRat r
    | _, _ => 0.0 / 0.0

/-- The remainder. -/
def remainder (a b : Quantity) : Except Foreign Quantity := do
  match ← operands a b with
  | .wholes m n => if n = 0 then throw .divisionByZero else return .whole (Int.fmod m n)
  | .stricts x y => if y == 0.0 then throw .divisionByZero else return .strict (remainderOf x y)
  | .lenients x y => return .lenient (remainderOf x y)
  | .complexes _ _ _ => throw .wrongType

/-! ## Functions -/

/-- The whole numbers that functions of machine reals take. -/
def takesWhole (n : Int) : Bool := -9223372036854775808 ≤ n && n < 18446744073709551616

/-- A function of reals, and of complex numbers where it has one.  The value is lenient. -/
def apply (f : Float → Float) (g? : Option (Complex → Complex)) (a : Quantity) :
    Except Foreign Quantity :=
  match a with
  | .complex z _ =>
    match g? with
    | some g => .ok (.complex (g z) true)
    | none => .error .wrongType
  | .whole n => do
    if takesWhole n then return .lenient (f (← (Quantity.whole n).toFloat)) else throw .wrongType
  | a => do return .lenient (f (← a.toFloat))

/-- The magnitude, real for complex numbers too. -/
def abs : Quantity → Except Foreign Quantity
  | .complex z _ => .ok (.lenient z.abs)
  | a => a.apply Float.abs none

/-- The sign of a machine real: one, zero or minus one, or undefined. -/
def signOf (x : Float) : Float :=
  if x < 0.0 then -1.0 else if 0.0 < x then 1.0 else if x.isNaN then x else 0.0

/-- Rounding to whole numbers, halves away from zero. -/
def roundOf (x : Float) : Float := signOf x * Binary.wholeBelow (x.abs + 0.5)

/-- Rounding to whole numbers; whole numbers of any size can be rounded.  Of a complex number the
    modulus is rounded. -/
def round : Quantity → Except Foreign Quantity
  | .complex z _ => .ok (.complex (.scale (Binary.wholeBelow (z.abs + 0.5)) z.sign) true)
  | a => do return .lenient (roundOf (← a.toFloat))

/-- A reciprocal. -/
def reciprocal (a : Quantity) : Except Foreign Quantity := div (.strict 1.0) a

/-- The greater or the smaller of two reals; undefined if either is. -/
def pick (second : Float → Float → Bool) (x y : Float) : Float :=
  if x.isNaN then x else if y.isNaN then y else if second x y then y else x

/-- The greater or the smaller of two quantities.  Complex numbers are ordered by real part and then
    by imaginary part. -/
def extremum (second : Float → Float → Bool) (a b : Quantity) : Except Foreign Quantity := do
  match ← operands a b with
  | .wholes m n => return if second (Float.ofInt (m - n)) 0.0 then .whole n else .whole m
  | .stricts x y => return .lenient (pick second x y)
  | .lenients x y => return .lenient (pick second x y)
  | .complexes z w _ =>
    return .complex (if second z.re w.re || (z.re == w.re && second z.im w.im) then w else z) true

/-- The greater of two quantities. -/
def max : Quantity → Quantity → Except Foreign Quantity := extremum fun x y => x < y

/-- The smaller of two quantities. -/
def min : Quantity → Quantity → Except Foreign Quantity := extremum fun x y => y < x

/-- The extremum of some quantities, the first one first; none of them is a failure. -/
def foldExtremum (f : Quantity → Quantity → Except Foreign Quantity) (name : String) :
    List Quantity → Except Fault Quantity
  | [] => .error (.noArguments name)
  | a :: rest => (rest.foldlM f a).mapError .foreign

/-! ## Results -/

/-- The real number that a quantity amounts to; a complex number has to be real. -/
def result : Quantity → Except Fault Float
  | .complex z _ =>
    if z.im == 0.0 then .ok z.re
    else .error (.complexResult (Decimal.sampleText z.re) (Decimal.sampleText z.im))
  | q => q.toFloat.mapError .foreign

end Quantity

end InitialValue
