/-
  Numbers as they stand in data: whole numbers of any size, or reals.

  Two whole numbers are combined exactly; as soon as a real takes part the whole number is rounded
  to the real type, which can fail.  Comparison never rounds.
-/
import InitialValue.Number.Scalar
import InitialValue.Fault

namespace InitialValue

/-- A whole number of any size, or a real. -/
inductive Number (α : Type) where
  | whole (n : Int)
  | real (x : α)
  deriving Repr, DecidableEq, BEq

namespace Number

variable {α : Type} [Scalar α]

/-- The number as a real. -/
def toReal : Number α → Except Foreign α
  | .whole n => (Scalar.ofInt? n).elim (.error .outOfRange) .ok
  | .real x => .ok x

/-- The difference, exact for two whole numbers. -/
def sub : Number α → Number α → Except Foreign (Number α)
  | .whole a, .whole b => .ok (.whole (a - b))
  | a, b => do return .real ((← a.toReal) - (← b.toReal))

def magnitude : Number α → Number α
  | .whole n => .whole n.natAbs
  | .real x => .real (Scalar.magnitude x)

/-- The order of two numbers, without rounding; none when one is undefined. -/
def compare? : Number α → Number α → Option Ordering
  | .whole a, .whole b => some (compareOfLessAndEq a b)
  | .real x, .whole b => Scalar.compareInt? x b
  | .whole a, .real y => (Scalar.compareInt? y a).map Ordering.swap
  | .real x, .real y => Scalar.compare? x y

/-- Strictly less; never true of an undefined number. -/
def lt (a b : Number α) : Bool := a.compare? b == some .lt

/-- Less or equal; never true of an undefined number. -/
def le (a b : Number α) : Bool := (a.compare? b).elim false (· != .gt)

/-- Equal in value; never true of an undefined number. -/
def same (a b : Number α) : Bool := a.compare? b == some .eq

/-- The real quotient.  Two whole numbers are divided exactly and rounded once. -/
def div : Number α → Number α → Except Foreign α
  | .whole a, .whole b =>
    if b = 0 then .error .divisionByZero
    else (Scalar.ofQuotient? a b).elim (.error .outOfRange) .ok
  | a, b => do
    let x ← a.toReal
    let y ← b.toReal
    if b.same (.whole 0) then .error .divisionByZero else .ok (x / y)

/-- Neither infinite nor undefined; asking it of a whole number needs its real value. -/
def isFinite : Number α → Except Foreign Bool
  | .whole n => do
    let _ ← (Number.whole n : Number α).toReal
    return true
  | .real x => .ok (Scalar.isFinite x)

/-- The second number when it is smaller, else the first. -/
def smaller (a b : Number α) : Number α := if b.lt a then b else a

/-- A number as written in messages. -/
def text : Number α → String
  | .whole n => toString n
  | .real x => Scalar.text x

/-- A limit in messages: at most six significant figures, the exponent without sign or padding
    when it is positive. -/
def limitText (a : Number α) : Except Foreign String := do
  return compactExponent (Scalar.brief (← a.toReal))
where
  /-- Drops the plus sign and the leading zeros of an exponent. -/
  compactExponent (s : String) : String :=
    match s.splitOn "e" with
    | [mantissa, power] =>
      let (sign, ds) : String × List Char := match power.toList with
        | '-' :: ds => ("-", ds)
        | '+' :: ds => ("", ds)
        | ds => ("", ds)
      let ds := ds.dropWhile (· == '0')
      mantissa ++ "e" ++ (if ds.isEmpty then "0" else sign ++ String.ofList ds)
    | _ => s

end Number

end InitialValue
