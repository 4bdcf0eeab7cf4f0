/-
  The names a formula may use, and finding names in a text.

  A formula knows a fixed set of functions and constants.  `namesIn` lists the other plain names of
  a text, each once and in order: a plain name is made of ASCII letters, digits and underscores,
  does not start with a digit, and does not touch a further word character on either side.
-/
import InitialValue.Text.Word

namespace InitialValue.Formula

/-! ## Known names -/

/-- The functions a formula may call, in order. -/
def functionNames : List String :=
  ["abs", "acos", "asin", "atan", "atan2", "cbrt", "ceil", "cos", "cosh", "cot", "csc", "exp",
   "floor", "log", "log10", "log2", "max", "min", "pow", "random", "round", "sec", "sign", "sin",
   "sinh", "sqrt", "tan", "tanh"]

/-- The constants a formula may use, in order. -/
def constantNames : List String := ["E", "PI", "e", "i", "pi"]

/-- A function or a constant. -/
def isKnown (name : String) : Bool := functionNames.contains name || constantNames.contains name

/-! ## Names in a text -/

/-- Puts a name into an ordered list without repetition. -/
def insertName (name : String) : List String → List String
  | [] => [name]
  | x :: xs =>
    if name < x then name :: x :: xs
    else if x < name then x :: insertName name xs
    else x :: xs

/-- The plain names of a text from a place on, given the character before it.  `skip` counts the
    characters that belong to the last name found. -/
def scanNames : Nat → Option Char → List Char → List String
  | _, _, [] => []
  | n + 1, _, c :: rest => scanNames n (some c) rest
  | 0, before, c :: rest =>
    if Text.isPlainStart c && !Text.endsWord before then
      let tail := rest.takeWhile Text.isPlainWord
      if Text.endsWord (rest.drop tail.length).head? then scanNames 0 (some c) rest
      else String.ofList (c :: tail) :: scanNames tail.length (some c) rest
    else scanNames 0 (some c) rest

/-- The names of a text that are neither functions nor constants, in order and without
    repetition. -/
def namesIn (cs : List Char) : List String :=
  ((scanNames 0 none cs).filter fun n => !isKnown n).foldr insertName []

end InitialValue.Formula
