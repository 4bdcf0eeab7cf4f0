/-
  The normal text of a formula.

  Passes over the text, in this order:

  * powers of simple operands become calls of `pow`, the rightmost of a chain first, until none is
    left (`spellPowers`); a double star left over becomes the power sign;
  * a doubled multiplicative operator is an error;
  * a product written by juxtaposition gets its star: a name or number before a bracket, and a
    closing bracket before a further term;
  * the constants `pi` and `e` are written small;
  * operators get single blanks around them, and runs of blanks collapse.

  Each pass is a `Rule`; the operators that come out of one pass are what the next one sees.
-/
import InitialValue.Formula.Substitution
import InitialValue.Formula.Names
import InitialValue.Formula.Safety

namespace InitialValue.Formula

open InitialValue.Text

/-! ## Operands of a power -/

/-- A flat group in brackets at the front of a text: its length, closing bracket included. -/
def groupLength? : List Char → Option Nat
  | '(' :: cs =>
    let inner := cs.takeWhile fun c => c != '(' && c != ')'
    match cs.drop inner.length with
    | ')' :: _ => some (inner.length + 2)
    | _ => none
  | _ => none

/-- A name of word characters that starts with an ASCII letter or underscore: its length. -/
def nameLength? : List Char → Option Nat
  | c :: cs => if isPlainStart c then some ((cs.takeWhile isWord).length + 1) else none
  | [] => none

/-- An exponent part at the front of a text: a mark, an optional sign and digits.  Its length,
    zero when it is not complete. -/
def exponentLength : List Char → Nat
  | e :: cs =>
    if e == 'e' || e == 'E' then
      let signLength := match cs with
        | '+' :: _ => 1
        | '-' :: _ => 1
        | _ => 0
      let ds := (cs.drop signLength).takeWhile isDigit
      if ds.isEmpty then 0 else 1 + signLength + ds.length
    else 0
  | [] => 0

/-- A number at the front of a text: digits with an optional point and digits after it, or a point
    and digits, then an optional exponent.  Its length. -/
def numberLength? (cs : List Char) : Option Nat :=
  let whole := (cs.takeWhile isDigit).length
  let rest := cs.drop whole
  let mantissa? : Option Nat :=
    match rest with
    | '.' :: more =>
      let fraction := (more.takeWhile isDigit).length
      if whole = 0 && fraction = 0 then none else some (whole + 1 + fraction)
    | _ => if whole = 0 then none else some whole
  mantissa?.map fun n => n + exponentLength (cs.drop n)

/-- The lengths of the operands at the front of a text, the preferred one first: a name with a flat
    group as its arguments, a name, a number, a flat group. -/
def operandLengths (cs : List Char) : List Nat :=
  let named : List Nat := match nameLength? cs with
    | some n =>
      let rest := cs.drop n
      let gap := (rest.takeWhile isBlank).length
      match groupLength? (rest.drop gap) with
      | some g => [n + gap + g, n]
      | none => [n]
    | none => []
  named ++ (numberLength? cs).toList ++ (groupLength? cs).toList

/-- A power sign at the front of a text, in either spelling: its length. -/
def powerSignLength? : List Char → Option Nat
  | '^' :: _ => some 1
  | '*' :: '*' :: _ => some 2
  | _ => none

/-- A text without the blanks at its front. -/
def skipBlanks (cs : List Char) : List Char := cs.dropWhile isBlank

/-- May a power end in front of this text?  Not if a further word character, point or bracket
    follows directly, nor if a power sign follows after blanks. -/
def endsPower (cs : List Char) : Bool :=
  (match cs with
    | c :: _ => !(isWord c || c == '.' || c == '(')
    | [] => true) && (powerSignLength? (skipBlanks cs)).isNone

/-! ## Powers -/

/-- A power of two simple operands, not directly behind a word character, point or closing
    bracket. -/
def powerRule : Rule := fun before cs =>
  if (before.head?.elim false fun c => isWord c || c == '.' || c == ')') then none
  else (operandLengths cs).findSome? fun n => do
    let base := cs.take n
    let rest := skipBlanks (cs.drop n)
    let sign ← powerSignLength? rest
    let rest := skipBlanks (rest.drop sign)
    let minus := match rest with
      | '-' :: _ => 1
      | _ => 0
    (operandLengths (rest.drop minus)).findSome? fun m =>
      let tail := rest.drop (minus + m)
      if endsPower tail then
        let exponent := rest.take (minus + m)
        some ⟨cs.length - tail.length - 1,
          "pow(".toList ++ base ++ [',', ' '] ++ exponent ++ [')']⟩
      else none

/-- Characters that power signs are written with. -/
def powerMarks (cs : List Char) : Nat := cs.countP fun c => c == '^' || c == '*'

/-- Spells powers as calls until none is left, or as often as told. -/
def spellPowersUpTo : Nat → List Char → List Char
  | 0, cs => cs
  | n + 1, cs =>
    if (powerRule.find? cs).isSome then spellPowersUpTo n (powerRule.apply cs) else cs

/-- Spells powers as calls until none is left.  Every productive pass uses up a power sign, so the
    marks of the text bound the number of passes. -/
def spellPowers (cs : List Char) : List Char := spellPowersUpTo (powerMarks cs) cs

/-- A double star becomes the power sign. -/
def starsRule : Rule := fun _ cs =>
  match cs with
  | '*' :: '*' :: _ => some ⟨1, ['^']⟩
  | _ => none

/-! ## Doubled operators -/

/-- A star or a slash. -/
def isMultiplicative (c : Char) : Bool := c == '*' || c == '/'

/-- Two multiplicative operators with nothing but blanks between them. -/
def doubledRule : Rule := fun _ cs =>
  match cs with
  | c :: rest =>
    if isMultiplicative c then
      let gap := (rest.takeWhile isBlank).length
      match rest.drop gap with
      | d :: _ => if isMultiplicative d then some ⟨gap + 1, []⟩ else none
      | [] => none
    else none
  | [] => none

/-- Refuses a text with a doubled multiplicative operator, naming the first. -/
def checkOperators (cs : List Char) : Except Fault Unit :=
  match doubledRule.find? cs with
  | some (hit, place) =>
    .error (.malformedOperator (String.ofList (place.take (hit.extra + 1))))
  | none => .ok ()

/-! ## Juxtaposition -/

/-- A name before an opening bracket; unless it names a function, a star is put between. -/
def nameBracketRule : Rule := fun before cs =>
  if endsWord before.head? then none
  else do
    let n ← nameLength? cs
    let rest := cs.drop n
    let gap := (rest.takeWhile isBlank).length
    match rest.drop gap with
    | '(' :: _ =>
      let name := cs.take n
      if functionNames.contains (String.ofList name) then some ⟨n + gap, cs.take (n + gap + 1)⟩
      else some ⟨n + gap, name ++ ['*', '(']⟩
    | _ => none

/-- A number before an opening bracket gets a star. -/
def numberBracketRule : Rule := fun before cs =>
  if (before.head?.elim false fun c => isWord c || c == '.') then none
  else do
    let n ← numberLength? cs
    let rest := cs.drop n
    let gap := (rest.takeWhile isBlank).length
    match rest.drop gap with
    | '(' :: _ => some ⟨n + gap, cs.take n ++ ['*', '(']⟩
    | _ => none

/-- May a term start with this character? -/
def startsTerm (c : Char) : Bool := isPlainStart c || isDigit c || c == '.' || c == '('

/-- A closing bracket before a term gets a star. -/
def bracketTermRule : Rule := fun _ cs =>
  match cs with
  | ')' :: rest =>
    let gap := (rest.takeWhile isBlank).length
    match rest.drop gap with
    | c :: _ => if startsTerm c then some ⟨gap, [')', '*']⟩ else none
    | [] => none
  | _ => none

/-! ## Constants -/

/-- The word `pi` in any letter case. -/
def piRule : Rule := fun before cs =>
  match cs with
  | a :: b :: rest =>
    if sameLetter 'p' a && sameLetter 'i' b && !endsWord before.head? && !endsWord rest.head? then
      some ⟨1, ['p', 'i']⟩
    else none
  | _ => none

/-- The word `e` in either letter case. -/
def eulerRule : Rule := fun before cs =>
  match cs with
  | a :: rest =>
    if sameLetter 'e' a && !endsWord before.head? && !endsWord rest.head? then some ⟨0, ['e']⟩
    else none
  | _ => none

/-! ## Spacing -/

/-- An operator that is set off by blanks. -/
def isSpaced (c : Char) : Bool := c == '+' || c == '-' || c == '*' || c == '/'

/-- An operator gets a blank on either side, unless it follows a digit and an exponent mark. -/
def spacingRule : Rule := fun before cs =>
  match cs with
  | c :: _ =>
    let inExponent := match before with
      | e :: d :: _ => (e == 'e' || e == 'E') && isDigit d
      | _ => false
    if isSpaced c && !inExponent then some ⟨0, [' ', c, ' ']⟩ else none
  | [] => none

/-- A power sign with the blanks around it becomes a double star. -/
def powerSignRule : Rule := fun _ cs =>
  let gap := (cs.takeWhile isBlank).length
  match cs.drop gap with
  | '^' :: rest => some ⟨gap + (rest.takeWhile isBlank).length, " ** ".toList⟩
  | _ => none

/-- A run of blanks becomes one blank. -/
def blanksRule : Rule := fun _ cs =>
  match cs with
  | c :: rest =>
    if isBlank c then some ⟨(rest.takeWhile isBlank).length, [' ']⟩ else none
  | [] => none

/-! ## The whole -/

/-- The passes after the check for doubled operators. -/
def finish (cs : List Char) : List Char :=
  let cs := nameBracketRule.apply cs
  let cs := numberBracketRule.apply cs
  let cs := bracketTermRule.apply cs
  let cs := piRule.apply cs
  let cs := eulerRule.apply cs
  let cs := spacingRule.apply cs
  let cs := powerSignRule.apply cs
  trim (blanksRule.apply cs)

/-- The normal text of a formula; a doubled multiplicative operator is an error. -/
def normalize (cs : List Char) : Except Fault (List Char) := do
  let cs := starsRule.apply (spellPowers (trim cs))
  checkOperators cs
  return finish cs

end InitialValue.Formula
