/-
  The first filter on formula text: fragments that are refused whatever stands around them.

  Words are looked for anywhere in the text and without regard to letter case; a dotted capital I
  and a dotless i count as an i, and a long s as an s.  The fragments are tried in a fixed order,
  so a text with several of them is refused for the first in that order.
-/
import InitialValue.Fault

namespace InitialValue.Formula

/-- A refused fragment. -/
inductive Fragment where
  /-- the characters of a text one after another, letters in either case -/
  | literal (cs : List Char)
  /-- any one of some characters -/
  | anyOf (cs : List Char)
  deriving Repr, DecidableEq

/-- Is `c` the small letter `letter` up to letter case? -/
def sameLetter (letter c : Char) : Bool :=
  c.toLower == letter || (letter == 'i' && (c.toNat == 0x130 || c.toNat == 0x131)) ||
    (letter == 's' && c.toNat == 0x17F)

namespace Fragment

/-- Does a text start with these characters up to letter case? -/
def startsLike : List Char → List Char → Bool
  | [], _ => true
  | _ :: _, [] => false
  | l :: ls, c :: cs => sameLetter l c && startsLike ls cs

/-- Does the fragment stand at the front of a text? -/
def atFront : Fragment → List Char → Bool
  | .literal ls, cs => startsLike ls cs
  | .anyOf ls, cs => cs.head?.elim false ls.contains

/-- Does the fragment stand anywhere in a text? -/
def occurs (f : Fragment) : List Char → Bool
  | [] => false
  | c :: cs => f.atFront (c :: cs) || f.occurs cs

end Fragment

/-- The refused fragments in order, each with the text that names it in messages. -/
def refusedFragments : List (Fragment × String) :=
  (["import", "require", "eval", "exec", "function", "lambda", "while", "for", "if", "var", "let",
    "const", "=>"].map fun w => (.literal w.toList, w)) ++
  [(.literal ['.', '.'], "\\.\\."), (.literal ['_', '_'], "__"),
   (.literal "prototype".toList, "prototype"),
   (.anyOf ['\'', '"', '\x60', ';', '\\'], "['\\\"\x60;\\\\]")]

/-- The first refused fragment of a text, by the text that names it. -/
def refusedIn? (cs : List Char) : Option String :=
  (refusedFragments.find? fun f => f.1.occurs cs).map (·.2)

/-- Accepts a text without refused fragments. -/
def checkSafety (cs : List Char) : Except Fault Unit :=
  match refusedIn? cs with
  | some pattern => .error (.unsafeFragment pattern)
  | none => .ok ()

end InitialValue.Formula
