/-
  Cutting the normal text of a formula into tokens.

  A token is a name, a number or a mark.  Blanks separate tokens and a hash sign ends the text.
  Numbers are whole (decimal, or in base two, eight or sixteen behind a zero and a letter) or
  decimal with a point or an exponent; single underscores may stand between digits.  A number must
  not run into a name, unless the name is one of the words that can follow a number.

  `tokens?` fails on characters that start no token, on numbers that break these rules, and on
  brackets nested too deeply.
-/
import InitialValue.Text.Identifier
import InitialValue.Decimal.Numeral

namespace InitialValue.Formula

open InitialValue.Text

/-- A number as it is written. -/
inductive Literal where
  | whole (n : Nat)
  | decimal (n : Decimal.Numeral)
  deriving DecidableEq

/-- A token. -/
inductive Token where
  | name (s : String)
  | number (l : Literal)
  | mark (s : String)
  deriving DecidableEq

namespace Token

/-! ## Numbers -/

/-- The words that may follow a number without a blank, by their first letters. -/
def wordsAfterNumber : List (List Char) :=
  ["and", "else", "for", "in", "is", "if", "or", "not"].map String.toList

/-- May a number end in front of this text? -/
def endsNumber (cs : List Char) : Bool :=
  match cs with
  | c :: _ => !isPlainWord c || wordsAfterNumber.any fun w => w.isPrefixOf cs
  | [] => true

/-- The value of a digit in bases up to sixteen. -/
def digitIn? (base : Nat) (c : Char) : Option Nat :=
  let n := c.toNat
  let v := if c.isDigit then n - 48
    else if 'a' ≤ c && c ≤ 'f' then n - 87
    else if 'A' ≤ c && c ≤ 'F' then n - 55
    else base
  if v < base then some v else none

/-- Digits of a base, an underscore allowed before each, on top of a number read so far; `some`
    counts whether there was any. -/
def takeRadix (base : Nat) : Nat → Bool → List Char → Option (Nat × List Char)
  | n, found, '_' :: c :: cs =>
    match digitIn? base c with
    | some d => takeRadix base (base * n + d) true cs
    | none => if found then some (n, '_' :: c :: cs) else none
  | n, found, c :: cs =>
    match digitIn? base c with
    | some d => takeRadix base (base * n + d) true cs
    | none => if found then some (n, c :: cs) else none
  | n, found, [] => if found then some (n, []) else none

/-- The base that a letter behind a leading zero announces. -/
def radix? (c : Char) : Option Nat :=
  if c == 'x' || c == 'X' then some 16
  else if c == 'o' || c == 'O' then some 8
  else if c == 'b' || c == 'B' then some 2
  else none

/-- The longest whole number in decimal digits that is read at all. -/
def mostDigits : Nat := 4300

/-- A decimal number: whole if it has neither point nor exponent, and then without superfluous
    leading zeros. -/
def takeDecimal? (cs : List Char) : Option (Literal × List Char) := do
  let (n, rest) ← Decimal.takeNumeral? cs
  let (ds, afterDigits) := Decimal.takeDigits cs
  if afterDigits.length = rest.length then
    if mostDigits < ds.length then none
    if ds.head? == some '0' && ds.any (· != '0') then none
    return (.whole n.digits, rest)
  else return (.decimal n, rest)

/-- A number at the front of a text. -/
def takeNumber? (cs : List Char) : Option (Literal × List Char) := do
  let (l, rest) ← match cs with
    | '0' :: c :: more =>
      match radix? c with
      | some base => (takeRadix base 0 false more).map fun (n, rest) => (Literal.whole n, rest)
      | none => takeDecimal? cs
    | _ => takeDecimal? cs
  if endsNumber rest then return (l, rest) else none

/-! ## Marks -/

/-- The marks of two characters. -/
def doubleMarks : List (List Char) :=
  ["**", "//", "<<", ">>", "<=", ">=", "==", "!="].map String.toList

/-- The marks of one character. -/
def singleMarks : List Char := "+-*/%@&|^~<>()[]\x7b\x7d,:.=".toList

/-- A mark at the front of a text, the longer one first. -/
def takeMark? (cs : List Char) : Option (String × List Char) :=
  match doubleMarks.find? fun m => m.isPrefixOf cs with
  | some m => some (String.ofList m, cs.drop m.length)
  | none =>
    match cs with
    | c :: rest => if singleMarks.contains c then some (String.ofList [c], rest) else none
    | [] => none

/-! ## All tokens -/

/-- Does a number start here? -/
def startsNumber : List Char → Bool
  | '.' :: c :: _ => c.isDigit
  | c :: _ => c.isDigit
  | [] => false

/-- The tokens of a text, at most as many as told. -/
def scan : Nat → List Char → Option (List Token)
  | 0, _ => none
  | fuel + 1, cs =>
    match cs with
    | [] => some []
    | c :: rest =>
      if c == '#' then some []
      else if c == ' ' then scan fuel rest
      else if startsNumber cs then do
        let (l, rest) ← takeNumber? cs
        return .number l :: (← scan fuel rest)
      else if isNameStart c then do
        let tail := rest.takeWhile isNamePart
        return .name (String.ofList (c :: tail)) :: (← scan fuel (rest.drop tail.length))
      else do
        let (m, rest) ← takeMark? cs
        return .mark m :: (← scan fuel rest)

/-! ## Nesting -/

/-- The deepest nesting of brackets that is read. -/
def deepest : Nat := 200

/-- Is a name written with plain characters only? -/
def isPlainName (s : String) : Bool := s.toList.all fun c => c.toNat < 128

/-- No bracket is nested deeper than allowed from a depth on.  Numbers and names with other than
    plain characters count as a bracket of their own. -/
def shallow : Nat → List Token → Bool
  | _, [] => true
  | d, .mark m :: rest =>
    if m == "(" || m == "[" || m == "\x7b" then d < deepest && shallow (d + 1) rest
    else if m == ")" || m == "]" || m == "\x7d" then shallow (d - 1) rest
    else shallow d rest
  | d, .number _ :: rest => d < deepest && shallow d rest
  | d, .name s :: rest => (isPlainName s || d < deepest) && shallow d rest

end Token

/-- The tokens of a text. -/
def tokens? (cs : List Char) : Option (List Token) := do
  let ts ← Token.scan (cs.length + 1) cs
  if Token.shallow 0 ts then return ts else none

end InitialValue.Formula
