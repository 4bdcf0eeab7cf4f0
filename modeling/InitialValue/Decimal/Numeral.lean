/-
  Reading decimal numerals.

  `decimal?` reads an unsigned numeral — digits with an optional point and an optional exponent,
  single underscores allowed between digits — as the exact pair of its digits and its power of ten.
  `number?` reads the texts that stand for a number in data: the same with a sign, blanks around it
  and digits of any script, or one of the words for infinity and for the undefined result.
-/
import InitialValue.Text.Blank
import InitialValue.Binary

namespace InitialValue.Decimal

/-- An exact decimal `digits · 10 ^ scale`; `figures` counts the digits without leading zeros, and
    `pointed` tells whether a point was written. -/
structure Numeral where
  digits : Nat
  scale : Int
  figures : Nat
  pointed : Bool
  deriving Repr, DecidableEq

namespace Numeral

/-- The value as a quotient of natural numbers. -/
def quotient (n : Numeral) : Nat × Nat := scaled n.digits 1 n.scale

/-- The nearest machine real.  A decimal whose leading place is far outside their range is not
    expanded: it is zero or infinite. -/
def toFloat (n : Numeral) (negative : Bool) : Float :=
  let place : Int := n.scale + width n.digits
  if n.digits = 0 || place < -400 then Binary.nearest negative 0 1
  else if 400 < place then Binary.nearest negative (Nat.pow 10 400) 1
  else
    let (a, b) := n.quotient
    Binary.nearest negative a b

end Numeral

/-! ## Runs of digits -/

/-- The digits at the front of a text, single underscores between them dropped, and the rest. -/
def takeDigits : List Char → List Char × List Char
  | '_' :: cs => ([], '_' :: cs)
  | cs => go cs
where
  go : List Char → List Char × List Char
    | c :: '_' :: d :: cs =>
      if c.isDigit && d.isDigit then
        let (ds, rest) := go (d :: cs)
        (c :: ds, rest)
      else if c.isDigit then ([c], '_' :: d :: cs)
      else ([], c :: '_' :: d :: cs)
    | c :: cs =>
      if c.isDigit then
        let (ds, rest) := go cs
        (c :: ds, rest)
      else ([], c :: cs)
    | [] => ([], [])

/-- The number that a run of digits writes. -/
def digitsValue (ds : List Char) : Nat := ds.foldl (fun n c => 10 * n + (c.toNat - '0'.toNat)) 0

/-- Exponent part: a mark, an optional sign and digits; nothing is read unless all are there. -/
def takeExponent (cs : List Char) : Int × List Char :=
  match cs with
  | e :: rest =>
    if e == 'e' || e == 'E' then
      let (negative, body) : Bool × List Char := match rest with
        | '-' :: r => (true, r)
        | '+' :: r => (false, r)
        | r => (false, r)
      match takeDigits body with
      | ([], _) => (0, cs)
      | (ds, r) => (if negative then -(digitsValue ds : Int) else digitsValue ds, r)
    else (0, cs)
  | [] => (0, [])

/-- An unsigned decimal numeral at the front of a text, and the rest. -/
def takeNumeral? (cs : List Char) : Option (Numeral × List Char) :=
  let (whole, rest) := takeDigits cs
  let (pointed, fraction, rest) : Bool × List Char × List Char := match rest with
    | '.' :: r =>
      match takeDigits r with
      | (ds, r') => (true, ds, r')
    | r => (false, [], r)
  if whole.isEmpty && fraction.isEmpty then none
  else
    let (power, rest) := takeExponent rest
    let ds := whole ++ fraction
    let figures := (ds.dropWhile (· == '0')).length
    some (⟨digitsValue ds, power - fraction.length, max 1 figures, pointed⟩, rest)

/-- A text that is one unsigned decimal numeral from end to end. -/
def decimal? (cs : List Char) : Option Numeral :=
  match takeNumeral? cs with
  | some (n, []) => some n
  | _ => none

/-! ## Numbers in data -/

/-- A digit of any script as an ASCII digit; other characters unchanged. -/
def asciiDigit (c : Char) : Char :=
  match Text.digitValue? c with
  | some n => Char.ofNat ('0'.toNat + n)
  | none => c

/-- The machine real that a text in data stands for. -/
def number? (s : String) : Option Float :=
  let cs := (Text.trim s.toList).map asciiDigit
  let (negative, body) : Bool × List Char := match cs with
    | '-' :: r => (true, r)
    | '+' :: r => (false, r)
    | r => (false, r)
  let word := String.ofList (body.map Char.toLower)
  if word == "inf" || word == "infinity" then some (if negative then -1.0 / 0.0 else 1.0 / 0.0)
  else if word == "nan" then some (0.0 / 0.0)
  else (decimal? body).map (·.toFloat negative)

end InitialValue.Decimal
