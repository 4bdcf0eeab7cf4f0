/-
  Machine reals as exact binary fractions, and back.

  A finite machine real is `± m · 2 ^ q`; `Fraction.ofFloat?` reads that off its bits, and
  `nearest` is the inverse direction for any quotient of natural numbers: the machine real
  nearest to it, an exact half going to the even mantissa, too large a quotient to infinity.
  `compareInt?` puts a machine real and a whole number in order without rounding either.
-/
import InitialValue.Decimal.Rounding

namespace InitialValue.Binary

/-- The exact value `± mant · 2 ^ exp` of a finite machine real. -/
structure Fraction where
  negative : Bool
  mant : Nat
  exp : Int
  deriving Repr, DecidableEq

namespace Fraction

/-- The exact value of a finite machine real; none for an infinity or an undefined result. -/
def ofFloat? (x : Float) : Option Fraction :=
  let bits := x.toBits.toNat
  let negative := bits / Nat.pow 2 63 == 1
  let field : Nat := bits / Nat.pow 2 52 % Nat.pow 2 11
  let low := bits % Nat.pow 2 52
  if field = 2047 then none
  else if field = 0 then some ⟨negative, low, -1074⟩
  else some ⟨negative, low + Nat.pow 2 52, (field : Int) - 1075⟩

/-- The magnitude as a quotient of natural numbers. -/
def magnitude (f : Fraction) : Nat × Nat :=
  if 0 ≤ f.exp then (f.mant * Nat.pow 2 f.exp.toNat, 1) else (f.mant, Nat.pow 2 (-f.exp).toNat)

/-- The value as a signed quotient. -/
def toRat (f : Fraction) : Rat :=
  let (a, b) := f.magnitude
  let r : Rat := mkRat (a : Int) b
  if f.negative then -r else r

end Fraction

/-- The exact value of a finite machine real. -/
def value? (x : Float) : Option Rat := (Fraction.ofFloat? x).map Fraction.toRat

/-! ## From exact to machine -/

/-- The exponent `e` with `2 ^ e ≤ a / b < 2 ^ (e + 1)`, for positive `a` and `b`. -/
def exponent (a b : Nat) : Int :=
  let guess : Int := (a.log2 : Int) - b.log2
  let (p, q) := if 0 ≤ guess then (a, b * Nat.pow 2 guess.toNat)
    else (a * Nat.pow 2 (-guess).toNat, b)
  if p < q then guess - 1 else guess

/-- `a / b` in units of `2 ^ k`, to the nearest whole number with ties to even. -/
def inUnits (a b : Nat) (k : Int) : Nat :=
  if 0 ≤ k then Decimal.nearest a (b * Nat.pow 2 k.toNat)
  else Decimal.nearest (a * Nat.pow 2 (-k).toNat) b

/-- The machine real nearest to `a / b`, ties to even; infinity when that is too large.  The
    exponent field counts from `-1022`, where a mantissa below `2 ^ 52` means gradual underflow,
    and a mantissa that rounds up to `2 ^ 53` carries into the field by itself. -/
def nearest (negative : Bool) (a b : Nat) : Float :=
  let magnitude : Nat :=
    if a = 0 then 0
    else
      let e := max (exponent a b) (-1022)
      min (2047 * Nat.pow 2 52) ((e + 1022).toNat * Nat.pow 2 52 + inUnits a b (e - 52))
  Float.ofBits (UInt64.ofNat (magnitude + if negative then Nat.pow 2 63 else 0))

/-- The machine real nearest to a quotient. -/
def ofRat (q : Rat) : Float := nearest (q.num < 0) q.num.natAbs q.den

/-- The machine real nearest to a whole number; none when that is too large for one. -/
def ofInt? (n : Int) : Option Float :=
  let x := nearest (n < 0) n.natAbs 1
  if x.isFinite then some x else none

/-- The greatest whole number that is not above a machine real.  Whole numbers, either zero,
    infinities and the undefined result stay what they are. -/
def wholeBelow (x : Float) : Float :=
  match value? x with
  | some q => if q.den = 1 then x else ofRat q.floor
  | none => x

/-! ## Exact comparison -/

/-- The order of a machine real and a whole number, without rounding; none for an undefined
    result. -/
def compareInt? (x : Float) (n : Int) : Option Ordering :=
  match value? x with
  | some q => some (compareOfLessAndEq q (n : Rat))
  | none => if x.isNaN then none else some (if x < 0 then .lt else .gt)

end InitialValue.Binary
