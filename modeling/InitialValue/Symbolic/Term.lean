/-
  Symbolic terms.

  A term is a number, a constant, a symbol, a sum, a product, a power or a function applied to
  terms; `ν` is the type of symbols.  Sums and products are lists kept in a canonical order with
  the number in front, so equal terms are equal as trees; `Term.cmp` is that order.

  The constants include the infinities and the undefined result, because arithmetic on terms is
  total: a quotient by zero is the infinity without direction.
-/
import InitialValue.Symbolic.Coefficient

namespace InitialValue.Symbolic

/-- Constants that are no quotients. -/
inductive Constant where
  | pi
  | euler
  /-- the imaginary unit -/
  | unit
  | infinity
  | minusInfinity
  /-- infinity without direction -/
  | pole
  | undefined
  deriving DecidableEq

/-- Functions. -/
inductive Fn where
  | sin | cos | tan | sec | csc | cot
  | asin | acos | atan | atan2
  | sinh | cosh | tanh | asinh | atanh
  | exp | log
  | abs | sign | floor | ceil
  | max | min | mod
  | cbrt | round | random
  /-- a function of a name that means nothing -/
  | unknown (name : String)
  deriving DecidableEq

/-- A term over symbols from `ν`. -/
inductive Term (ν : Type) where
  | num (n : Coefficient)
  | const (c : Constant)
  | symbol (v : ν)
  /-- a name that means nothing -/
  | stranger (name : String)
  | sum (terms : List (Term ν))
  | product (factors : List (Term ν))
  | power (base exponent : Term ν)
  | apply (f : Fn) (args : List (Term ν))
  deriving Inhabited

namespace Fn

/-- The functions with their names, in a fixed order. -/
def table : List (Fn × String) := [
  (.sin, "sin"), (.cos, "cos"), (.tan, "tan"), (.sec, "sec"), (.csc, "csc"), (.cot, "cot"),
  (.asin, "asin"), (.acos, "acos"), (.atan, "atan"), (.atan2, "atan2"),
  (.sinh, "sinh"), (.cosh, "cosh"), (.tanh, "tanh"), (.asinh, "asinh"), (.atanh, "atanh"),
  (.exp, "exp"), (.log, "log"),
  (.abs, "Abs"), (.sign, "sign"), (.floor, "floor"), (.ceil, "ceiling"),
  (.max, "Max"), (.min, "Min"), (.mod, "Mod"),
  (.cbrt, "cbrt"), (.round, "round"), (.random, "random")]

/-- The name of a function. -/
def name : Fn → String
  | .unknown s => s
  | f => ((table.find? (·.1 == f)).map (·.2)).getD ""

/-- Functions that stand for themselves: nothing is known of their values. -/
def isOpaque : Fn → Bool
  | .cbrt => true
  | .round => true
  | .random => true
  | .unknown _ => true
  | _ => false

/-- Functions of an angle. -/
def isCircular : Fn → Bool
  | .sin => true
  | .cos => true
  | .tan => true
  | .sec => true
  | .csc => true
  | .cot => true
  | _ => false

end Fn

namespace Constant

/-- The place of a constant in the canonical order. -/
def rank : Constant → Nat
  | .pi => 0
  | .euler => 1
  | .unit => 2
  | .infinity => 3
  | .minusInfinity => 4
  | .pole => 5
  | .undefined => 6

end Constant

namespace Term

variable {ν : Type}

/-! ## The canonical order -/

/-- The place of a kind of term in the canonical order. -/
def rank : Term ν → Nat
  | .num _ => 0
  | .const _ => 1
  | .symbol _ => 2
  | .stranger _ => 3
  | .power _ _ => 4
  | .apply _ _ => 5
  | .product _ => 6
  | .sum _ => 7

/-- The order of numbers inside terms: by value, an exact one before a binary one. -/
def cmpNum (a b : Coefficient) : Ordering :=
  (a.cmp b).then (compareOfLessAndEq (if a.isReal then 1 else 0) (if b.isReal then 1 else 0 : Nat))

mutual

/-- The canonical order of terms. -/
def cmp [Ord ν] : Term ν → Term ν → Ordering
  | .num a, .num b => cmpNum a b
  | .const a, .const b => compare a.rank b.rank
  | .symbol a, .symbol b => compare a b
  | .stranger a, .stranger b => compare a b
  | .sum xs, .sum ys => cmpAll xs ys
  | .product xs, .product ys => cmpAll xs ys
  | .power a b, .power c d => (cmp a c).then (cmp b d)
  | .apply f xs, .apply g ys => (compare f.name g.name).then (cmpAll xs ys)
  | x, y => compare x.rank y.rank

/-- The canonical order of lists of terms: the shorter first, then item by item. -/
def cmpAll [Ord ν] : List (Term ν) → List (Term ν) → Ordering
  | [], [] => .eq
  | [], _ :: _ => .lt
  | _ :: _, [] => .gt
  | x :: xs, y :: ys => (cmp x y).then (cmpAll xs ys)

end

/-- Are two terms the same? -/
def same [Ord ν] (x y : Term ν) : Bool := cmp x y == .eq

/-- Terms in canonical order. -/
def inOrder [Ord ν] (xs : List (Term ν)) : List (Term ν) :=
  xs.mergeSort fun x y => cmp x y != .gt

/-! ## Abbreviations -/

def zero : Term ν := .num .zero

def one : Term ν := .num .one

def ofInt (n : Int) : Term ν := .num (.ofInt n)

def ofRat (q : Rat) : Term ν := .num (.rat q)

def pi : Term ν := .const .pi

def euler : Term ν := .const .euler

def unit : Term ν := .const .unit

def pole : Term ν := .const .pole

def undefined : Term ν := .const .undefined

/-! ## Taking apart -/

def num? : Term ν → Option Coefficient
  | .num n => some n
  | _ => none

def rat? : Term ν → Option Rat
  | .num (.rat q) => some q
  | _ => none

def whole? : Term ν → Option Int
  | .num n => n.whole?
  | _ => none

def isNum (x : Term ν) : Bool := x.num?.isSome

def isOne : Term ν → Bool
  | .num (.rat q) => q == 1
  | _ => false

def isZero : Term ν → Bool
  | .num n => n.isZero
  | _ => false

def isUndefined : Term ν → Bool
  | .const .undefined => true
  | _ => false

def isPole : Term ν → Bool
  | .const .pole => true
  | _ => false

def isInfinite : Term ν → Bool
  | .const .infinity => true
  | .const .minusInfinity => true
  | .const .pole => true
  | _ => false

def isSum : Term ν → Bool
  | .sum _ => true
  | _ => false

def isProduct : Term ν → Bool
  | .product _ => true
  | _ => false

def isPower : Term ν → Bool
  | .power _ _ => true
  | _ => false

/-- The terms of a sum; any other term is a sum of itself. -/
def terms : Term ν → List (Term ν)
  | .sum ts => ts
  | t => [t]

/-- The factors of a product; any other term is a product of itself. -/
def factors : Term ν → List (Term ν)
  | .product fs => fs
  | t => [t]

/-- A product of factors as they stand. -/
def ofFactors : List (Term ν) → Term ν
  | [] => one
  | [f] => f
  | fs => .product fs

/-- A sum of terms as they stand. -/
def ofTerms : List (Term ν) → Term ν
  | [] => zero
  | [t] => t
  | ts => .sum ts

/-- The number in front of a product, and the rest. -/
def split : Term ν → Coefficient × Term ν
  | .num n => (n, one)
  | .product (.num n :: fs) => (n, ofFactors fs)
  | t => (.one, t)

/-- The number in front of a product if it is exact, and the rest. -/
def splitRat (t : Term ν) : Rat × Term ν :=
  match t.split with
  | (.rat q, rest) => (q, rest)
  | _ => (1, t)

/-- The number in front of a sum, and the rest. -/
def splitSum : Term ν → Coefficient × Term ν
  | .num n => (n, zero)
  | .sum (.num n :: ts) => (n, ofTerms ts)
  | t => (.zero, t)

/-! ## Changing the sign -/

/-- A term that is no sum, with the other sign. -/
def negateTerm : Term ν → Term ν
  | .num n => .num n.neg
  | .const .infinity => .const .minusInfinity
  | .const .minusInfinity => .const .infinity
  | .const .pole => .const .pole
  | .const .undefined => .const .undefined
  | .product (.num n :: fs) =>
    if n.neg == .one then ofFactors fs else .product (.num n.neg :: fs)
  | .product fs => .product (.num (.rat (-1)) :: fs)
  | t => .product [.num (.rat (-1)), t]

/-- A term with the other sign; a sum changes the sign of all its terms. -/
def negate [Ord ν] : Term ν → Term ν
  | .sum ts => .sum (inOrder (ts.map negateTerm))
  | t => negateTerm t

/-- Base and exponent.  The exponential function has Euler's number as base, and a power of one
    over a whole number counts as a power of the whole number. -/
def baseExponent [Ord ν] : Term ν → Term ν × Term ν
  | .power (.num (.rat q)) e =>
    if q.num = 1 && q.den != 1 then (.num (.rat q.den), e.negate) else (.num (.rat q), e)
  | .power b e => (b, e)
  | .apply .exp [x] => (euler, x)
  | t => (t, one)

/-! ## Searching -/

mutual

/-- Does a property hold of some part of a term? -/
def any (p : Term ν → Bool) : Term ν → Bool
  | .sum ts => p (.sum ts) || anyOf p ts
  | .product fs => p (.product fs) || anyOf p fs
  | .power b e => p (.power b e) || any p b || any p e
  | .apply f args => p (.apply f args) || anyOf p args
  | t => p t

/-- Does a property hold of some part of some term? -/
def anyOf (p : Term ν → Bool) : List (Term ν) → Bool
  | [] => false
  | t :: ts => any p t || anyOf p ts

end

/-- Is the term free of symbols and of functions nothing is known of? -/
def isConstant (t : Term ν) : Bool :=
  !t.any fun
    | .symbol _ => true
    | .stranger _ => true
    | .apply f _ => f.isOpaque
    | _ => false

/-- Does the imaginary unit occur? -/
def hasUnit (t : Term ν) : Bool :=
  t.any fun
    | .const .unit => true
    | _ => false

end Term

end InitialValue.Symbolic
