/-
  Substituting in a text from left to right.

  A `Rule` looks at one place of a text: the characters before it, nearest first, and the text from
  it on.  It may answer with a `Hit`: how many further characters belong to what it found, and what
  to write instead.  `Rule.apply` tries the rule at every place from left to right and goes on
  behind each hit; `Rule.find?` gives the first place where the rule applies.  All passes over
  formula text are rules of this kind.
-/

namespace InitialValue.Formula

/-- What a rule found at a place: `extra` characters beyond the first, and their replacement. -/
structure Hit where
  extra : Nat
  text : List Char
  deriving Repr, DecidableEq

/-- A substitution rule: the characters before a place, nearest first, and the text from it on. -/
abbrev Rule := List Char → List Char → Option Hit

namespace Rule

/-- One pass: the rule is applied at every place that is not part of an earlier hit.  The first
    argument counts the characters that still belong to the last hit. -/
def pass (r : Rule) : Nat → List Char → List Char → List Char
  | _, _, [] => []
  | n + 1, before, c :: rest => pass r n (c :: before) rest
  | 0, before, c :: rest =>
    match r before (c :: rest) with
    | some hit => hit.text ++ pass r hit.extra (c :: before) rest
    | none => c :: pass r 0 (c :: before) rest

/-- One pass over a whole text. -/
def apply (r : Rule) (cs : List Char) : List Char := r.pass 0 [] cs

/-- The hit at the first place where the rule applies, with the text from there on. -/
def findFrom? (r : Rule) : List Char → List Char → Option (Hit × List Char)
  | _, [] => none
  | before, c :: rest =>
    match r before (c :: rest) with
    | some hit => some (hit, c :: rest)
    | none => findFrom? r (c :: before) rest

/-- The first place of a whole text where the rule applies. -/
def find? (r : Rule) (cs : List Char) : Option (Hit × List Char) := r.findFrom? [] cs

end Rule

end InitialValue.Formula
