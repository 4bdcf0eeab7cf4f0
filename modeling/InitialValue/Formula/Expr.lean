/-
  Formulas as trees, and reading them from tokens.

  The grammar is that of ordinary arithmetic with a few guests: comparisons, the words `or` and
  `and`, bitwise operators, calls, and bracketed collections.  Operators bind by strength, from
  `or` up to the power sign, which binds tighter than a sign on its left and looser than one on
  its right; all operators of one strength group to the left, powers to the right.

  The reader works with fuel; the number of tokens bounds how deep it has to go.
-/
import InitialValue.Formula.Token

namespace InitialValue.Formula

/-! ## Trees -/

/-- Signs in front of an operand. -/
inductive Sign where
  | plus
  | minus
  | inverted
  deriving DecidableEq

/-- Operators between two operands. -/
inductive Operator where
  | add
  | sub
  | mul
  | div
  | mod
  | power
  | union
  | meet
  | shiftLeft
  | shiftRight
  deriving DecidableEq

/-- Comparisons. -/
inductive Comparison where
  | less
  | lessEqual
  | greater
  | greaterEqual
  | equal
  | unequal
  | identical
  | member
  deriving DecidableEq

/-- What square, round and curly brackets collect. -/
inductive Bracket where
  | round
  | square
  | curly
  deriving DecidableEq

/-- A formula as a tree. -/
inductive Expr where
  | number (l : Literal)
  | name (s : String)
  | signed (s : Sign) (x : Expr)
  | binary (op : Operator) (x y : Expr)
  /-- a chain of comparisons -/
  | compare (x : Expr) (rest : List (Comparison × Expr))
  | either (x y : Expr)
  | both (x y : Expr)
  | call (f : Expr) (args : List Expr)
  | item (x i : Expr)
  | collection (b : Bracket) (items : List Expr)
  /-- pairs in curly brackets -/
  | pairs (items : List (Expr × Expr))

namespace Expr

/-! ## Strength of operators -/

/-- The strength of a comparison. -/
def comparing : Nat := 3

/-- The strength of a sign in front of its operand. -/
def signing : Nat := 9

/-- An operator between two operands, with its strength. -/
def operator? : String → Option (Operator × Nat)
  | "|" => some (.union, 4)
  | "&" => some (.meet, 5)
  | "<<" => some (.shiftLeft, 6)
  | ">>" => some (.shiftRight, 6)
  | "+" => some (.add, 7)
  | "-" => some (.sub, 7)
  | "*" => some (.mul, 8)
  | "/" => some (.div, 8)
  | "%" => some (.mod, 8)
  | _ => none

/-- A comparison written as a mark. -/
def comparison? : Token → Option Comparison
  | .mark "<" => some .less
  | .mark "<=" => some .lessEqual
  | .mark ">" => some .greater
  | .mark ">=" => some .greaterEqual
  | .mark "==" => some .equal
  | .mark "!=" => some .unequal
  | .name "is" => some .identical
  | .name "in" => some .member
  | _ => none

/-- A sign. -/
def sign? : String → Option Sign
  | "+" => some .plus
  | "-" => some .minus
  | "~" => some .inverted
  | _ => none

/-- Words of the grammar, which are no names. -/
def reserved : List String :=
  ["and", "else", "for", "if", "in", "is", "lambda", "not", "or", "while"]

/-! ## Reading -/

mutual

/-- An operand and the operators of at least the given strength behind it. -/
def read : Nat → Nat → List Token → Option (Expr × List Token)
  | 0, _, _ => none
  | fuel + 1, strength, ts => do
    let (x, rest) ← readSigned fuel ts
    readOperators fuel strength x rest

/-- A signed operand, or a power. -/
def readSigned : Nat → List Token → Option (Expr × List Token)
  | 0, _ => none
  | fuel + 1, .mark m :: rest =>
    match sign? m with
    | some s => do
      let (x, rest) ← readSigned fuel rest
      return (.signed s x, rest)
    | none => readPower fuel (.mark m :: rest)
  | fuel + 1, ts => readPower fuel ts

/-- An operand, possibly raised to a power that may have a sign. -/
def readPower : Nat → List Token → Option (Expr × List Token)
  | 0, _ => none
  | fuel + 1, ts => do
    let (atom, rest) ← readAtom fuel ts
    let (x, rest) ← readTrailers fuel atom rest
    match rest with
    | .mark "**" :: rest =>
      let (y, rest) ← readSigned fuel rest
      return (.binary .power x y, rest)
    | rest => return (x, rest)

/-- A number, a name, or something in brackets. -/
def readAtom : Nat → List Token → Option (Expr × List Token)
  | 0, _ => none
  | fuel + 1, ts =>
    match ts with
    | .number l :: rest => some (.number l, rest)
    | .name s :: rest => if reserved.contains s then none else some (.name s, rest)
    | .mark "(" :: rest => do
      let (items, comma, rest) ← readItems fuel ")" rest
      match items, comma with
      | [x], false => return (x, rest)
      | items, _ => return (.collection .round items, rest)
    | .mark "[" :: rest => do
      let (items, _, rest) ← readItems fuel "]" rest
      return (.collection .square items, rest)
    | .mark "\x7b" :: .mark "\x7d" :: rest => some (.pairs [], rest)
    | .mark "\x7b" :: rest =>
      match readPairs fuel rest with
      | some (items, rest) => some (.pairs items, rest)
      | none => do
        let (items, _, rest) ← readItems fuel "\x7d" rest
        return (.collection .curly items, rest)
    | _ => none

/-- Calls and indices behind an operand. -/
def readTrailers : Nat → Expr → List Token → Option (Expr × List Token)
  | 0, _, _ => none
  | fuel + 1, x, ts =>
    match ts with
    | .mark "(" :: rest => do
      let (args, _, rest) ← readItems fuel ")" rest
      readTrailers fuel (.call x args) rest
    | .mark "[" :: rest => do
      let (items, comma, rest) ← readItems fuel "]" rest
      match items, comma with
      | [], _ => none
      | [i], false => readTrailers fuel (.item x i) rest
      | items, _ => readTrailers fuel (.item x (.collection .round items)) rest
    | ts => some (x, ts)

/-- Items up to a closing bracket; a comma may follow the last one, which is told. -/
def readItems : Nat → String → List Token → Option (List Expr × Bool × List Token)
  | 0, _, _ => none
  | fuel + 1, close, ts =>
    match ts with
    | .mark m :: rest =>
      if m == close then some ([], false, rest) else readItem fuel close ts
    | ts => readItem fuel close ts

/-- An item and the items behind it. -/
def readItem : Nat → String → List Token → Option (List Expr × Bool × List Token)
  | 0, _, _ => none
  | fuel + 1, close, ts => do
    let (x, rest) ← read fuel 0 ts
    match rest with
    | .mark "," :: rest =>
      let (items, comma, rest) ← readItems fuel close rest
      return (x :: items, comma || items.isEmpty, rest)
    | .mark m :: rest => if m == close then return ([x], false, rest) else none
    | _ => none

/-- Pairs up to a closing curly bracket. -/
def readPairs : Nat → List Token → Option (List (Expr × Expr) × List Token)
  | 0, _ => none
  | fuel + 1, ts => do
    let (x, rest) ← read fuel 0 ts
    match rest with
    | .mark ":" :: rest =>
      let (y, rest) ← read fuel 0 rest
      match rest with
      | .mark "\x7d" :: rest => return ([(x, y)], rest)
      | .mark "," :: .mark "\x7d" :: rest => return ([(x, y)], rest)
      | .mark "," :: rest =>
        let (items, rest) ← readPairs fuel rest
        return ((x, y) :: items, rest)
      | _ => none
    | _ => none

/-- Operators of at least the given strength behind an operand. -/
def readOperators : Nat → Nat → Expr → List Token → Option (Expr × List Token)
  | 0, _, _, _ => none
  | fuel + 1, strength, x, ts =>
    match ts with
    | .name "or" :: rest =>
      if strength ≤ 1 then do
        let (y, rest) ← read fuel 2 rest
        readOperators fuel strength (.either x y) rest
      else some (x, ts)
    | .name "and" :: rest =>
      if strength ≤ 2 then do
        let (y, rest) ← read fuel 3 rest
        readOperators fuel strength (.both x y) rest
      else some (x, ts)
    | t :: rest =>
      match comparison? t with
      | some _ =>
        if strength ≤ comparing then do
          let (chain, rest) ← readChain fuel ts
          readOperators fuel strength (.compare x chain) rest
        else some (x, ts)
      | none =>
        match t with
        | .mark m =>
          match operator? m with
          | some (op, s) =>
            if strength ≤ s then do
              let (y, rest) ← read fuel (s + 1) rest
              readOperators fuel strength (.binary op x y) rest
            else some (x, ts)
          | none => some (x, ts)
        | _ => some (x, ts)
    | [] => some (x, [])

/-- The comparisons of a chain. -/
def readChain : Nat → List Token → Option (List (Comparison × Expr) × List Token)
  | 0, _ => none
  | fuel + 1, ts =>
    match ts with
    | t :: rest =>
      match comparison? t with
      | some c => do
        let (y, rest) ← read fuel (comparing + 1) rest
        let (chain, rest) ← readChain fuel rest
        return ((c, y) :: chain, rest)
      | none => some ([], ts)
    | [] => some ([], [])

end

/-- How much fuel the reader needs for a number of tokens. -/
def fuelFor (n : Nat) : Nat := 8 * n + 16

/-- Items without brackets, separated by commas, up to the end. -/
def readTop (fuel : Nat) (ts : List Token) : Option Expr := do
  let (items, comma, rest) ← readItem fuel ")" (ts ++ [.mark ")"])
  if !rest.isEmpty then none
  match items, comma with
  | [x], false => return x
  | items, _ => return .collection .round items

/-- The tree of a token list. -/
def ofTokens? (ts : List Token) : Option Expr := readTop (fuelFor ts.length) ts

end Expr

/-- The tree of a normal text. -/
def Expr.ofText? (cs : List Char) : Option Expr := do Expr.ofTokens? (← tokens? cs)

end InitialValue.Formula
