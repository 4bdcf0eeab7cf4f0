/-
  Phrases: formulas as they are written.

  A `Phrase` is a formula with everything that its text shows and its tree does not: brackets,
  blanks, the spelling of numbers and power signs, and products written without a sign.  It has a
  text (`Phrase.text`) and a tree (`Phrase.tree`); the first is what a user types, the second what
  the formula is meant to say.

  * `proper` — brackets stand where the strength of the operators asks for them;
  * `explicit` — every product is written with a sign;
  * `sturdy` — no number with a signed exponent is raised to a power when underscores stand in front
    of the sign only, where the spelling of powers would see nothing but the exponent;
  * `uncaught` — in products without a sign, the spelling of powers takes no factor apart and no two
    for one: a name in front of a bracket group that a power sign touches, or a number with a signed
    exponent that is raised to a power behind a closing bracket.

  Trees are compared up to the spelling of powers (`Expr.identify`).
-/
import InitialValue.Formula.Reading
import InitialValue.Proofs.Formula.Numeral

namespace InitialValue.Formula

open InitialValue.Text

/-! ## Trees up to the spelling of powers -/

namespace Expr

/-- A function applied to arguments; `pow` of two arguments is the power of one to the other. -/
def applied : Expr → List Expr → Expr
  | .name "pow", [x, y] => .binary .power x y
  | f, args => .call f args

mutual

/-- The tree of an arithmetic formula with all powers written as such. -/
def identify : Expr → Expr
  | .signed s x => .signed s (identify x)
  | .binary op x y => .binary op (identify x) (identify y)
  | .call f args => applied f (identifyAll args)
  | .collection b items => .collection b (identifyAll items)
  | x => x

/-- The trees of a list with all powers written as such. -/
def identifyAll : List Expr → List Expr
  | [] => []
  | x :: xs => identify x :: identifyAll xs

end

mutual

/-- The names in the tree of an arithmetic formula, from left to right. -/
def names : Expr → List String
  | .name s => [s]
  | .signed _ x => names x
  | .binary _ x y => names x ++ names y
  | .call f args => names f ++ namesOfAll args
  | .collection _ items => namesOfAll items
  | _ => []

/-- The names in the trees of a list. -/
def namesOfAll : List Expr → List String
  | [] => []
  | x :: xs => names x ++ namesOfAll xs

end

/-- The variables in the tree of an arithmetic formula, from left to right. -/
def variableNames (x : Expr) : List String := x.names.filter fun s => !isKnown s

/-- What a comma list stands for. -/
def items : Expr → List Expr
  | .collection .round xs => xs
  | x => [x]

end Expr

/-! ## The parts of a phrase -/

/-- Blanks between the parts of a formula. -/
structure Gap where
  text : List Char
  blank : ∀ c ∈ text, isBlank c = true

/-- No blanks at all. -/
def Gap.none : Gap := ⟨[], fun _ h => by cases h⟩

/-- A single blank. -/
def Gap.single : Gap := ⟨[' '], forall_mem_of_all (by decide)⟩

/-- Is a text a plain name? -/
def isPlainText : List Char → Bool
  | c :: cs => isPlainStart c && cs.all isPlainWord
  | [] => false

/-- A plain name that is neither a function nor a word of the grammar. -/
structure Name where
  text : List Char
  plain : isPlainText text = true
  free : functionNames.contains (String.ofList text) = false
  unreserved : Expr.reserved.contains (String.ofList text) = false

/-- The word `pi` in any letter case. -/
def isPi : List Char → Bool
  | [a, b] => sameLetter 'p' a && sameLetter 'i' b
  | _ => false

/-- The word `e` in either letter case. -/
def isEuler : List Char → Bool
  | [a] => sameLetter 'e' a
  | _ => false

namespace Name

/-- The constant `pi`. -/
def pi : Name := ⟨['p', 'i'], by decide, by decide, by decide⟩

/-- The constant `e`. -/
def euler : Name := ⟨['e'], by decide, by decide, by decide⟩

/-- The name with `pi` in small letters. -/
def settlePi (w : Name) : Name := if isPi w.text then pi else w

/-- The name with `e` as a small letter. -/
def settleEuler (w : Name) : Name := if isEuler w.text then euler else w

/-- What a name is called in trees: the constants are written with small letters. -/
def settled (w : Name) : String := String.ofList w.settlePi.settleEuler.text

end Name

/-- The name of a function. -/
abbrev FunctionName := { f : String // functionNames.contains f = true }

/-- The operators that group to the left. -/
inductive Arith where
  | add
  | sub
  | mul
  | div
  deriving DecidableEq

namespace Arith

/-- How the operator is written. -/
def mark : Arith → Char
  | add => '+'
  | sub => '-'
  | mul => '*'
  | div => '/'

/-- What the operator is in trees. -/
def operator : Arith → Operator
  | add => .add
  | sub => .sub
  | mul => .mul
  | div => .div

/-- The strength of the operator among phrases. -/
def strength : Arith → Nat
  | add => 2
  | sub => 2
  | mul => 3
  | div => 3

end Arith

/-! ## Phrases -/

/-- A formula as it is written. -/
inductive Phrase where
  | number (n : Numeral)
  | name (w : Name)
  | call (f : FunctionName) (g : Gap) (args : Phrase) (g' : Gap)
  /-- a call without arguments -/
  | bare (f : FunctionName) (g : Gap)
  | group (g : Gap) (p : Phrase) (g' : Gap)
  /-- a power, its sign written with a caret or with two stars -/
  | power (b : Phrase) (g : Gap) (doubled : Bool) (g' : Gap) (e : Phrase)
  | minus (g : Gap) (p : Phrase)
  | binary (op : Arith) (x : Phrase) (g g' : Gap) (y : Phrase)
  /-- a product without a sign -/
  | joint (x y : Phrase)
  | comma (x : Phrase) (g g' : Gap) (y : Phrase)

/-- How a power sign is written. -/
def powerSign (doubled : Bool) : List Char := if doubled then ['*', '*'] else ['^']

namespace Phrase

/-- The text of a phrase. -/
def text : Phrase → List Char
  | number n => n.text
  | name w => w.text
  | call f g args g' => f.val.toList ++ '(' :: (g.text ++ (args.text ++ (g'.text ++ [')'])))
  | bare f g => f.val.toList ++ '(' :: (g.text ++ [')'])
  | group g p g' => '(' :: (g.text ++ (p.text ++ (g'.text ++ [')'])))
  | power b g doubled g' e => b.text ++ (g.text ++ (powerSign doubled ++ (g'.text ++ e.text)))
  | minus g p => '-' :: (g.text ++ p.text)
  | binary op x g g' y => x.text ++ (g.text ++ op.mark :: (g'.text ++ y.text))
  | joint x y => x.text ++ y.text
  | comma x g g' y => x.text ++ (g.text ++ ',' :: (g'.text ++ y.text))

/-- The tree of a phrase. -/
def tree : Phrase → Expr
  | number n => .number n.literal
  | name w => .name w.settled
  | call f _ args _ => .call (.name f.val) args.tree.items
  | bare f _ => .call (.name f.val) []
  | group _ p _ => p.tree
  | power b _ _ _ e => .binary .power b.tree e.tree
  | minus _ p => .signed .minus p.tree
  | binary op x _ _ y => .binary op.operator x.tree y.tree
  | joint x y => .binary .mul x.tree y.tree
  | comma x _ _ y => .collection .round (x.tree :: y.tree.items)

/-- How tightly the parts of a phrase are bound: `6` for operands, `5` for powers, `4` with a sign in
    front, `3` for products, `2` for sums and `1` for comma lists. -/
def strength : Phrase → Nat
  | number _ => 6
  | name _ => 6
  | call _ _ _ _ => 6
  | bare _ _ => 6
  | group _ _ _ => 6
  | power _ _ _ _ _ => 5
  | minus _ _ => 4
  | binary op _ _ _ _ => op.strength
  | joint _ _ => 3
  | comma _ _ _ _ => 1

/-- Does a phrase show a bracket? -/
def hasBracket : Phrase → Bool
  | number _ => false
  | name _ => false
  | call _ _ _ _ => true
  | bare _ _ => true
  | group _ _ _ => true
  | power b _ _ _ e => b.hasBracket || e.hasBracket
  | minus _ p => p.hasBracket
  | binary _ x _ _ y => x.hasBracket || y.hasBracket
  | joint x y => x.hasBracket || y.hasBracket
  | comma x _ _ y => x.hasBracket || y.hasBracket

/-- Is every product written with a sign? -/
def explicit : Phrase → Bool
  | number _ => true
  | name _ => true
  | call _ _ args _ => args.explicit
  | bare _ _ => true
  | group _ p _ => p.explicit
  | power b _ _ _ e => b.explicit && e.explicit
  | minus _ p => p.explicit
  | binary _ x _ _ y => x.explicit && y.explicit
  | joint _ _ => false
  | comma x _ _ y => x.explicit && y.explicit

/-- The phrase with a star written in every product. -/
def starred : Phrase → Phrase
  | number n => number n
  | name w => name w
  | call f g args g' => call f g args.starred g'
  | bare f g => bare f g
  | group g p g' => group g p.starred g'
  | power b g doubled g' e => power b.starred g doubled g' e.starred
  | minus g p => minus g p.starred
  | binary op x g g' y => binary op x.starred g g' y.starred
  | joint x y => binary .mul x.starred .none .none y.starred
  | comma x g g' y => comma x.starred g g' y.starred

end Phrase

/-! ## Where brackets have to stand -/

/-- What the text of a phrase ends with. -/
inductive Ending where
  /-- a name that a bracket may be put to -/
  | free
  /-- a name at the end of an exponent -/
  | bound
  /-- a number, or a name right behind a closing bracket -/
  | fixed
  /-- a number that no bracket can be put to, for an underscore in it -/
  | grouped
  /-- a closing bracket -/
  | bracket
  deriving DecidableEq

/-- What the text of a phrase starts with. -/
inductive Lead where
  /-- a bracket group without further brackets -/
  | flat
  /-- a bracket group with further brackets -/
  | deep
  /-- a number with a signed exponent, raised to a power -/
  | risky
  | other
  deriving DecidableEq

/-- A number has a sign in its exponent. -/
def Numeral.signed (n : Numeral) : Bool := n.text.any fun c => c == '+' || c == '-'

/-- A number has an underscore in front of a signed exponent, and none in the exponent. -/
def Numeral.fragile (n : Numeral) : Bool :=
  match n.text.dropWhile fun c => c != '+' && c != '-' with
  | _ :: ds => (n.text.takeWhile fun c => c != '+' && c != '-').contains '_' && !ds.contains '_'
  | [] => false

/-- A number that has an underscore and is not fragile. -/
def Numeral.grouped (n : Numeral) : Bool := n.text.contains '_' && !n.fragile

namespace Phrase

/-- Is a phrase just a name? -/
def isName : Phrase → Bool
  | name _ => true
  | _ => false

/-- Is a phrase just a number with a sign in its exponent? -/
def isSigned : Phrase → Bool
  | number n => n.signed
  | _ => false

/-- Is a phrase just a fragile number? -/
def isFragile : Phrase → Bool
  | number n => n.fragile
  | _ => false

/-- What the text of a phrase ends with. -/
def ending : Phrase → Ending
  | number n => if n.grouped then .grouped else .fixed
  | name _ => .free
  | call _ _ _ _ => .bracket
  | bare _ _ => .bracket
  | group _ _ _ => .bracket
  | power _ _ _ _ e => if e.ending = .free then .bound else e.ending
  | minus _ p => p.ending
  | binary _ _ _ _ y => y.ending
  | joint _ y => if y.isName then .fixed else y.ending
  | comma _ _ _ y => y.ending

/-- What the text of a phrase starts with. -/
def lead : Phrase → Lead
  | number _ => .other
  | name _ => .other
  | call _ _ _ _ => .other
  | bare _ _ => .other
  | group _ p _ => if p.hasBracket then .deep else .flat
  | power b _ _ _ _ => if b.isSigned then .risky else b.lead
  | minus _ _ => .other
  | binary _ x _ _ _ => x.lead
  | joint x _ => x.lead
  | comma x _ _ _ => x.lead

/-- Does the text of a phrase start with a bracket group? -/
def opens (p : Phrase) : Bool := p.lead == .flat || p.lead == .deep

/-- Brackets stand wherever the strength of an operator asks for them; without a sign, a product is
    written with a closing bracket in front of its second factor, or a bracket group as it. -/
def proper : Phrase → Bool
  | number _ => true
  | name _ => true
  | call _ _ args _ => args.proper
  | bare _ _ => true
  | group _ p _ => 2 ≤ p.strength && p.proper
  | power b _ _ _ e => b.strength == 6 && 4 ≤ e.strength && b.proper && e.proper
  | minus _ p => 4 ≤ p.strength && p.proper
  | binary op x _ _ y => op.strength ≤ x.strength && op.strength < y.strength && x.proper && y.proper
  | joint x y =>
    3 ≤ x.strength && 5 ≤ y.strength && (x.ending == .bracket || y.opens) && x.proper && y.proper
  | comma x _ _ y => 2 ≤ x.strength && x.proper && y.proper

/-- A number that is raised to a power is not fragile. -/
def sturdy : Phrase → Bool
  | number _ => true
  | name _ => true
  | call _ _ args _ => args.sturdy
  | bare _ _ => true
  | group _ p _ => p.sturdy
  | power b _ _ _ e => !b.isFragile && b.sturdy && e.sturdy
  | minus _ p => p.sturdy
  | binary _ x _ _ y => x.sturdy && y.sturdy
  | joint x y => x.sturdy && y.sturdy
  | comma x _ _ y => x.sturdy && y.sturdy

/-- Do the factors of a product without a sign stay what they are, and apart from each other?  A
    power sign that touches a name with a flat group takes both for a call, a number behind a
    bracket is not seen as a whole, and a number with underscores not at all. -/
def apart (x y : Phrase) : Bool :=
  match x.ending with
  | .free => y.lead == .deep || y.strength == 6
  | .bound => y.lead == .deep
  | .fixed => true
  | .grouped => false
  | .bracket => y.lead != .risky

/-- In all products without a sign, the factors stay apart. -/
def uncaught : Phrase → Bool
  | number _ => true
  | name _ => true
  | call _ _ args _ => args.uncaught
  | bare _ _ => true
  | group _ p _ => p.uncaught
  | power b _ _ _ e => b.uncaught && e.uncaught
  | minus _ p => p.uncaught
  | binary _ x _ _ y => x.uncaught && y.uncaught
  | joint x y => apart x y && x.uncaught && y.uncaught
  | comma x _ _ y => x.uncaught && y.uncaught

end Phrase

end InitialValue.Formula
