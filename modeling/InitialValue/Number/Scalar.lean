/-
  The arithmetic that solvers work in.

  Everything from the step formulas to the integration loop is stated over a type with the
  operations of `Scalar`, so that it can be run on machine reals and reasoned about over the exact
  rationals with the very same definitions.  Whole numbers enter by `ofInt?`, which may fail on a
  type of bounded range, and are compared without being rounded first.
-/
import InitialValue.Decimal.Layout
import InitialValue.Decimal.Numeral

namespace InitialValue

/-- Numbers a solver can work with. -/
class Scalar (α : Type) extends Add α, Sub α, Mul α, Div α, Neg α, OfScientific α where
  /-- The value nearest to a whole number; none when there is none in range. -/
  ofInt? : Int → Option α
  /-- The value nearest to a quotient with a nonzero divisor; none when there is none in range. -/
  ofQuotient? : Int → Int → Option α
  /-- The value that a text in data stands for. -/
  read? : String → Option α
  /-- The order of two values; none when one of them is undefined. -/
  compare? : α → α → Option Ordering
  /-- The order of a value and a whole number, without rounding. -/
  compareInt? : α → Int → Option Ordering
  /-- Neither infinite nor undefined. -/
  isFinite : α → Bool
  magnitude : α → α
  /-- The greatest whole number below a finite value. -/
  floor : α → Int
  /-- What stands for a missing number in data. -/
  missing : α
  /-- The value as written in messages. -/
  text : α → String
  /-- The value with at most six significant figures. -/
  brief : α → String
  /-- The value with three significant figures. -/
  padded : α → String

namespace Scalar

variable {α : Type} [Scalar α]

/-- Strictly less; never true of an undefined value. -/
def lt (a b : α) : Bool := compare? a b == some .lt

/-- Less or equal; never true of an undefined value. -/
def le (a b : α) : Bool := (compare? a b).elim false (· != .gt)

/-- Equal in value; never true of an undefined value. -/
def same (a b : α) : Bool := compare? a b == some .eq

/-- The second value when it is greater, else the first. -/
def larger (a b : α) : α := if lt a b then b else a

/-- The second value when it is smaller, else the first. -/
def smaller (a b : α) : α := if lt b a then b else a

end Scalar

/-! ## Machine reals -/

/-- Order of machine reals; the two zeros are equal. -/
def Binary.compare? (x y : Float) : Option Ordering :=
  if x < y then some .lt else if x == y then some .eq else if y < x then some .gt else none

/-- The greatest whole number below a finite machine real. -/
def Binary.floor (x : Float) : Int := ((Binary.value? x).map Rat.floor).getD 0

instance : Scalar Float where
  ofInt? := Binary.ofInt?
  ofQuotient? a b :=
    let x := Binary.nearest (decide (a < 0) != decide (b < 0)) a.natAbs b.natAbs
    if x.isFinite then some x else none
  read? := Decimal.number?
  compare? := Binary.compare?
  compareInt? := Binary.compareInt?
  isFinite x := x.isFinite
  magnitude x := x.abs
  floor := Binary.floor
  missing := 0.0 / 0.0
  text := Decimal.exactText
  brief := Decimal.roundedText 6
  padded := Decimal.paddedText 3

/-! ## Exact rationals -/

instance : Scalar Rat where
  ofInt? n := some n
  ofQuotient? a b := some ((a : Rat) / b)
  read? s := (Decimal.decimal? (Text.trim s.toList)).map fun n =>
    let (a, b) := n.quotient
    mkRat (a : Int) b
  compare? a b := some (compareOfLessAndEq a b)
  compareInt? a n := some (compareOfLessAndEq a (n : Rat))
  isFinite _ := true
  magnitude a := if a < 0 then -a else a
  floor := Rat.floor
  missing := 0
  text a := toString a.num ++ "/" ++ toString a.den
  brief a := toString a.num ++ "/" ++ toString a.den
  padded a := toString a.num ++ "/" ++ toString a.den

end InitialValue
