/-
  Powers.

  Numbers are raised exactly as far as exact roots go; binary reals are raised to machine precision.
  A power of a product is taken factor by factor, for a whole exponent always, for other numbers as
  far as the factors are known not to be negative.  A power of a power multiplies the exponents
  when that cannot change the branch of the root.
-/
import InitialValue.Symbolic.Product
import InitialValue.Symbolic.Function.Numeric

namespace InitialValue.Symbolic

variable {ν : Type} [Ord ν]

namespace Power

/-! ## Numbers -/

/-- The term of a surd. -/
def ofSurd (A : Algebra ν) (s : Surd) : Term ν :=
  let n := s.turn.floor
  let left := s.turn - n
  let coeff := if n % 2 = 0 then s.coeff else -s.coeff
  let turned : List (Term ν) :=
    if left = 0 then [] else if left = 1 / 2 then [.unit]
    else [.power (.ofInt (-1)) (.ofRat left)]
  A.product (.ofRat coeff :: turned ++ s.roots.map fun (b, e) => .power (.ofInt b) (.ofRat e))

/-- The base of a root that is left when nothing can be taken out of it. -/
def irreducible? (b e : Rat) (s : Surd) : Option (Int × Rat) :=
  match s.roots with
  | [(n, f)] =>
    if s.coeff != 1 then none
    else if s.turn = 0 then some (n, f)
    else if s.turn = e && f = e && e != 1 / 2 && b.den = 1 then some (-n, f)
    else none
  | _ => none

/-- The longest whole power that is computed, in bits. -/
def longestPower : Nat := 268435456

/-- Is a whole power of a quotient too long to be computed? -/
def isTooLong (b : Rat) (n : Int) : Bool :=
  longestPower < (b.num.natAbs.log2 + b.den.log2) * n.natAbs

/-- A quotient that is not zero raised to a quotient.  A whole power that is too long to be computed
    counts as infinite. -/
def rational (A : Algebra ν) (b e : Rat) : Term ν :=
  if e.den = 1 then (if isTooLong b e.num then .pole else .num (Coefficient.powInt (.rat b) e.num))
  else
    let s := Surd.power b e
    match irreducible? b e s with
    | some (n, f) => .power (.ofInt n) (.ofRat f)
    | none => ofSurd A s

/-- Twice a number, if that is an odd whole number. -/
def oddHalves? (e : Coefficient) : Option Int :=
  let twice := 2 * e.toRat
  if twice.den = 1 && twice.num % 2 = 1 then some twice.num else none

/-- A whole power of the imaginary unit. -/
def unitPower (n : Int) : Term ν :=
  match n % 4 with
  | 0 => .one
  | 1 => .unit
  | 2 => .ofInt (-1)
  | _ => .product [.ofInt (-1), .unit]

/-- A negative binary real raised to a number that is not whole.  Odd multiples of a half are
    multiples of the imaginary unit. -/
def negativeBinary (A : Algebra ν) (prec : Nat) (x : Rounded) (e : Coefficient) : Term ν :=
  let size := Numeric.power prec x.abs e
  match oddHalves? e, e with
  | some n, _ => A.mul (.num size) (unitPower n)
  | none, .rat q =>
    if q.num = 1 && q.den % 2 = 1 then A.mul (.power (.ofInt (-1)) (.ofRat q)) (.num size)
    else complexPower
  | none, .real y =>
    if y.isWhole then .num (.ofRounded ((x.withPrec prec).powInt y.floor)) else complexPower
where
  complexPower : Term ν :=
    Numeric.ofComplex A prec (Complex.pow (.ofReal x.toFloat) (.ofReal e.toFloat))

/-- A binary real raised to a number. -/
def binary (A : Algebra ν) (x : Rounded) (e : Coefficient) : Term ν :=
  match e.whole? with
  | some n =>
    if x.isZero then (if n < 0 then .pole else .num (.real x))
    else .num (.ofRounded (x.powInt n))
  | none =>
    if x.isZero then (if e.isNegative then .pole else .num (.real x))
    else
      let prec := match e with
        | .real y => max x.prec y.prec
        | .rat _ => x.prec
      if x.isNegative then negativeBinary A prec x e else .num (Numeric.power prec x e)

/-- Zero raised to a power. -/
def ofZero (A : Algebra ν) (e : Term ν) : Term ν :=
  match e.standing with
  | .positive => .zero
  | .negative => .pole
  | .imaginary => .undefined
  | .complex => .undefined
  | .zero => .one
  | _ =>
    let (c, rest) := e.split
    if c.isNegative then A.power .pole rest
    else if c == .one then .power .zero e
    else .power .zero rest

/-- A number raised to a power. -/
def ofNum (A : Algebra ν) (n : Coefficient) (e : Term ν) : Term ν :=
  match n, e with
  | .rat q, .num (.rat f) => if q = 0 then ofZero A e else rational A q f
  | .rat q, .num (.real y) =>
    if q = 0 then ofZero A e
    else binary A (Rounded.ofRat y.prec q) (.real y)
  | .real x, .num f => binary A x f
  | n, e => if n == .zero then ofZero A e else .power (.num n) e

/-- The imaginary unit raised to a power. -/
def ofUnit (e : Term ν) : Term ν :=
  match e with
  | .num (.rat q) =>
    if q.den = 1 then unitPower q.num
    else
      let n := (q / 2).floor
      let left := q - 2 * n
      let root := Term.power .unit (.ofRat left)
      if n % 2 = 0 then root else .product [.ofInt (-1), root]
  | e => .power .unit e

/-! ## Products -/

/-- Factors by what is known of their signs. -/
structure Signed (ν : Type) where
  nonNegative : List (Term ν)
  negative : List (Term ν)
  other : List (Term ν)
  units : Nat

/-- Sorts factors by what is known of their signs. -/
def bySign (fs : List (Term ν)) : Signed ν :=
  fs.foldr (fun f s =>
    match f with
    | .const .unit => { s with units := s.units + 1 }
    | f =>
      let k := f.standing
      if k.isNonNegative then { s with nonNegative := f :: s.nonNegative }
      else if k.isNotNonNegative then { s with negative := f :: s.negative }
      else { s with other := f :: s.other }) ⟨[], [], [], 0⟩

/-- Moves the signs of negative factors out of them, as far as that is possible: what may be raised
    on its own, and what has to stay together. -/
def moveSigns (s : Signed ν) : List (Term ν) × List (Term ν) :=
  let s := if s.units = 0 then s else { s with other := s.other ++ [.unit] }
  match s.negative with
  | [] => (s.nonNegative, s.other)
  | [n] =>
    if s.other.isEmpty then (s.nonNegative, [n])
    else match n with
      | .num c =>
        if c == .rat (-1) then (s.nonNegative, s.other ++ [n])
        else (s.nonNegative ++ [.num c.neg], s.other ++ [.ofInt (-1)])
      | n => (s.nonNegative, s.other ++ [n])
  | n :: more =>
    let takesFirst := s.other.isEmpty && n.isNum
    let rest := if takesFirst then more else n :: more
    let signed (t : Term ν) : Term ν := if rest.length % 2 = 1 then t.negate else t
    let kept := signed (if takesFirst then n else .one)
    (s.nonNegative ++ rest.map Term.negate, if kept.isOne then s.other else s.other ++ [kept])

/-- A product raised to a number that is not whole. -/
def splitProduct (A : Algebra ν) (fs : List (Term ν)) (e : Term ν) : Term ν :=
  let (free, bound) := moveSigns (bySign fs)
  let together : List (Term ν) :=
    if bound.isEmpty then []
    else match A.product bound with
      | .product gs => [.power (.product gs) e]
      | b => [A.power b e]
  match free, together with
  | [], [t] => t
  | free, together => A.product (free.map (fun b => A.power b e) ++ together)

/-- A multiple of the imaginary unit to a half, when the root is exact. -/
def halfOfImaginary? (A : Algebra ν) (c e : Rat) : Option (Term ν) := do
  let h := (if c < 0 then -c else c) / 2
  let n ← exactRoot? 2 h.num.natAbs
  let d ← exactRoot? 2 h.den
  let root := mkRat (n : Int) d
  let turned : Term ν := A.sum [.one, if c < 0 then .product [.ofInt (-1), .unit] else .unit]
  return A.product [A.power (.ofRat root) (.ofInt e.num), A.power turned (.ofInt e.num)]

/-- A product raised to a power. -/
def ofProduct (A : Algebra ν) (fs : List (Term ν)) (e : Term ν) : Term ν :=
  match e with
  | .num (.rat q) =>
    if q.den = 1 then A.product (fs.map fun f => A.power f e)
    else
      let special := match fs with
        | [.num (.rat c), .const .unit] => if q.den = 2 then halfOfImaginary? A c q else none
        | _ => none
      special.getD (splitProduct A fs e)
  | .num (.real _) => splitProduct A fs e
  | e => .power (.product fs) e

/-! ## Sums -/

/-- Real and imaginary part of a sum of two exact ones. -/
def complexParts? (ts : List (Term ν)) : Option (Rat × Rat) :=
  match ts with
  | [.num (.rat a), .const .unit] => some (a, 1)
  | [.num (.rat a), .product [.num (.rat b), .const .unit]] => some (a, b)
  | _ => none

/-- The square root of a quotient, if it is one. -/
def rationalRoot? (q : Rat) : Option Rat := do
  if q < 0 then none
  let n ← exactRoot? 2 q.num.natAbs
  let d ← exactRoot? 2 q.den
  return mkRat (n : Int) d

/-- A complex number raised to a half or to minus one. -/
def ofComplexParts? (A : Algebra ν) (a b e : Rat) : Option (Term ν) :=
  if e = -1 then
    some (A.product [.ofRat (1 / (a * a + b * b)),
      A.sum [.ofRat a, A.product [.ofRat (-b), .unit]]])
  else if e.den = 2 then do
    let d ← rationalRoot? (a * a + b * b)
    let root := A.power (A.sqrt (.ofRat ((d - a) / 2))) (.ofInt e.num)
    let size := if b < 0 then -b else b
    let turned : Term ν := if b < 0 then .product [.ofInt (-1), .unit] else .unit
    let main := A.sum [.ofRat ((d + a) / size), turned]
    return A.mul root (A.power main (.ofInt e.num))
  else none

/-- The largest of some numbers by magnitude; of equals the last. -/
def largest (cs : List Coefficient) : Coefficient :=
  cs.foldl (fun m c => if m.le c.abs then c.abs else m) .zero

/-- A sum with binary reals in front of its terms: the largest of them is taken out of the power. -/
def takeOut? (A : Algebra ν) (ts : List (Term ν)) (e : Coefficient) : Option (Term ν) :=
  let cs := ts.map fun t => t.split.1
  let big := largest cs
  if (cs.any Coefficient.isReal) && !big.isZero && big.cmp .one != .eq && e.abs.cmp .one != .eq then
    let scaled := ts.map fun t =>
      let (c, rest) := t.split
      let c' := if c.abs == big then (if c.isNegative then .rat (-1) else Coefficient.one)
        else c.div big
      A.mul (.num c') rest
    some (A.mul (A.power (.num big) (.num e)) (A.power (A.sum scaled) (.num e)))
  else none

/-- A sum raised to a power. -/
def ofSum (A : Algebra ν) (ts : List (Term ν)) (e : Term ν) : Term ν :=
  let special := match e with
    | .num (.rat q) =>
      match complexParts? ts with
      | some (a, b) => ofComplexParts? A a b q
      | none => if (Term.sum ts).isConstant then none else takeOut? A ts (.rat q)
    | .num e => takeOut? A ts e
    | _ => none
  special.getD (.power (.sum ts) e)

/-! ## Powers of powers -/

/-- Is the term a number that is half of an odd one? -/
def isHalf (e : Term ν) : Bool :=
  match e with
  | .num (.rat q) => q.den = 2
  | _ => false

/-- Is the magnitude of a known real below a bound? -/
def isBelow (bound : Float) (e : Term ν) : Bool :=
  e.isConstant && match e.approx? with
    | some z => z.isReal && z.re.abs < bound
    | none => false

/-- Does raising the power `b ^ e` to another exponent only multiply the exponents? -/
def multiplies (b e outer : Term ν) : Bool :=
  if outer.whole?.isSome then true
  else if !e.isRealValued then false
  else isBelow 1.0 e || b.isNonNegative || (isHalf outer && isPlainPole b e)
where
  /-- Minus one as exponent of a base that is not negative. -/
  isPlainPole (b e : Term ν) : Bool :=
    e.whole? == some (-1) && b.isConstant && b.standing != .negative && b.standing != .unknown

/-- The power `b ^ e` raised to another exponent. -/
def ofPower (A : Algebra ν) (whole b e outer : Term ν) : Term ν :=
  if multiplies b e outer then A.power b (A.mul e outer)
  else
    match e.whole?, outer with
    | some k, .num (.rat q) =>
      if k % 2 = 0 && b.isRealValued && b.isConstant == false then
        -- an even power of something real
        A.power (A.apply .abs [b]) (A.mul e (.ofRat q))
      else .power whole outer
    | _, _ => .power whole outer

end Power

/-- A power. -/
def Algebra.powerStep (A : Algebra ν) (b e : Term ν) : Term ν :=
  if e.rat? == some 0 then .one
  else if e.isOne then b
  else if e.isUndefined || b.isUndefined then .undefined
  else if b.isOne then (if e.isInfinite then .undefined else .one)
  else match b with
    | .num n => Power.ofNum A n e
    | .const .euler => A.apply .exp [e]
    | .const .unit => Power.ofUnit e
    | .const .pole =>
      match e.standing with
      | .positive => .pole
      | .negative => .zero
      | _ => .power b e
    | .const .infinity =>
      match e.standing with
      | .positive => .const .infinity
      | .negative => .zero
      | _ => .power b e
    | .product fs => Power.ofProduct A fs e
    | .sum ts => Power.ofSum A ts e
    | .power b' e' => Power.ofPower A b b' e' e
    | .apply .exp [x] => Power.ofPower A b .euler x e
    | b => .power b e

end InitialValue.Symbolic
