/-
  Remainders.

  A remainder has the sign of the divisor.  It is known when the quotient of the two terms is a
  constant.  Otherwise an inner remainder goes where the outer one makes it idle; what dividend and
  divisor have in common is taken out in front; and the terms of a sum are reduced one by one where
  that leaves no remainder of its own.
-/
import InitialValue.Symbolic.Function.Magnitude

namespace InitialValue.Symbolic

variable {ν : Type} [Ord ν]

namespace Remainder

/-! ## Remainders that are known -/

/-- The remainder if the quotient is a constant: as many divisors as fit in are taken away. -/
def ofConstant? (A : Algebra ν) (ratio x y : Term ν) : Option (Term ν) :=
  if ratio.isConstant then do
    let z ← ratio.approx?
    if !(z.isReal && z.re.isFinite) then none
    let n := Magnitude.wholeOf z.re.floor
    return A.sub x (A.product [.ofInt n, y])
  else none

/-- The remainder by a divisor that is not zero, if it can be told. -/
def known? (A : Algebra ν) (x y : Term ν) : Option (Term ν) :=
  if x.isUndefined || y.isUndefined || x.isInfinite || y.isInfinite then some .undefined
  else if x.isZero || x.same y || x.same y.negate then some .zero
  else match x, y with
    | .num a, .num b => some (.num (a.mod b))
    | x, y =>
      let ratio := A.div x y
      if ratio.whole?.isSome then some .zero else ofConstant? A ratio x y

/-! ## Remainders inside remainders -/

/-- Is the first term a whole multiple of the second? -/
def divides (A : Algebra ν) (x y : Term ν) : Bool := (A.apply .mod [x, y]).isZero

/-- The remainder of a remainder: the inner one is idle if its divisor is a multiple of the outer
    one, and the outer one is idle if its divisor is the larger. -/
def ofRemainder? (A : Algebra ν) (x y : Term ν) : Option (Term ν) :=
  match x with
  | .apply .mod [z, inner] =>
    if divides A inner y then some (A.apply .mod [z, y])
    else if (A.mul inner (A.sub y inner)).isNonNegative then some x
    else none
  | .product [.num (.rat q), .apply .mod [z, inner]] =>
    if q = -1 then
      if divides A inner y then some (A.apply .mod [A.neg z, y])
      else if (A.neg (A.mul inner (A.add y inner))).isNonNegative then some x
      else none
    else none
  | .sum ts =>
    let (inner, outer) := ts.partition (isBy y)
    if inner.isEmpty || outer.any isAny then none
    else some (A.apply .mod [A.sum (outer ++ inner.map dividend), y])
  | _ => none
where
  /-- A remainder by a given divisor. -/
  isBy (y : Term ν) : Term ν → Bool
    | .apply .mod [_, inner] => inner.same y
    | _ => false
  /-- A remainder. -/
  isAny : Term ν → Bool
    | .apply .mod _ => true
    | _ => false
  /-- What a remainder is of. -/
  dividend : Term ν → Term ν
    | .apply .mod [z, _] => z
    | t => t

/-! ## What two terms have in common -/

/-- A factor as a root with a positive whole exponent.  A power with a quotient in its exponent is
    a power of the root or of its reciprocal; numbers are no roots. -/
def root? (A : Algebra ν) (f : Term ν) : Option (Term ν × Nat) :=
  match f with
  | .num _ => none
  | .apply .exp [x] => if x.isNum then some (f, 1) else ofMultiple f x fun r => A.apply .exp [r]
  | .power b (.num (.rat q)) => some (A.power b (.ofRat (mkRat q.num.sign q.den)), q.num.natAbs)
  | .power b e => if e.isNum then some (f, 1) else ofMultiple f e fun r => A.power b r
  | f => some (f, 1)
where
  /-- A power whose exponent is a whole multiple. -/
  ofMultiple (f e : Term ν) (g : Term ν → Term ν) : Term ν × Nat :=
    let (q, rest) := e.splitRat
    if q.den = 1 && q != 0 then (g (if q < 0 then rest.negate else rest), q.num.natAbs) else (f, 1)

/-- The roots that occur in both lists, with the lesser exponent. -/
def shared (xs ys : List (Term ν × Nat)) : List (Term ν × Nat) :=
  xs.filterMap fun (r, n) => (ys.find? fun z => z.1.same r).map fun z => (r, min n z.2)

/-- The roots that are factors of a term: of a sum, those of all its terms, or else the sum. -/
def roots (A : Algebra ν) (x : Term ν) : List (Term ν × Nat) :=
  match x with
  | .sum (t :: ts) =>
    let rs := ts.foldl (fun rs t => shared rs (rootsOf t)) (rootsOf t)
    if rs.isEmpty then [(x, 1)] else rs
  | t => rootsOf t
where
  rootsOf (t : Term ν) : List (Term ν × Nat) := t.factors.filterMap (root? A)

/-- The numbers in front of the terms of a term. -/
def coefficients (x : Term ν) : List Coefficient := x.terms.map fun t => t.split.1

/-- The greatest whole number that divides some numbers, one unless all are whole. -/
def content (ns : List Coefficient) : Nat :=
  let ws := ns.filterMap Coefficient.whole?
  if ws.length = ns.length then ws.foldl (fun g w => Nat.gcd g w.natAbs) 0 else 1

/-- The common factor of two terms. -/
def common (A : Algebra ν) (x y : Term ν) : Term ν :=
  let rs := shared (roots A x) (roots A y)
  A.product (.ofInt (content (coefficients x ++ coefficients y)) ::
    rs.map fun (r, n) => A.power r (.ofInt n))

/-- A term without a factor. -/
def cancel (A : Algebra ν) (g x : Term ν) : Term ν :=
  if g.isOne then x
  else match x with
    | .sum ts => if g.factors.any Term.isSum then A.div x g else A.sum (ts.map fun t => A.div t g)
    | x => A.div x g

/-! ## Any remainder -/

mutual

/-- How many remainders there are inside a term. -/
def count : Term ν → Nat
  | .sum ts => countAll ts
  | .product fs => countAll fs
  | .power b e => count b + count e
  | .apply f args => (if f == .mod then 1 else 0) + countAll args
  | _ => 0

/-- How many remainders there are inside some terms. -/
def countAll : List (Term ν) → Nat
  | [] => 0
  | t :: ts => count t + countAll ts

end

/-- A sum with its terms reduced, except where that would leave a remainder. -/
def reduceTerms (A : Algebra ν) (ts : List (Term ν)) (y : Term ν) : Term ν :=
  A.sum (ts.map fun t =>
    let r := A.apply .mod [t, y]
    if count t < count r then t else r)

/-- A whole multiple of a binary real in front of the divisor: the factor that comes out, and the
    dividend and the divisor that are left. -/
def takeReal? (A : Algebra ν) (x y : Term ν) : Option (Term ν × Term ν × Term ν) :=
  let (a, p) := x.split
  let (b, q) := y.split
  if a.isReal || b.isReal then
    let a := real a
    let b := real b
    if (a.mod b).isZero then
      some (.num b, A.product [.ofInt ((a.div b).floor), p], q)
    else none
  else none
where
  /-- A number as a binary real. -/
  real : Coefficient → Coefficient
    | .rat q => .real (Rounded.ofRat 53 q)
    | n => n

/-- A remainder that is not known, with the common factor out in front. -/
def reduced (A : Algebra ν) (x y : Term ν) : Term ν :=
  let g := common A x y
  let p := cancel A g x
  let q := cancel A g y
  let (h, p', q') := match p with
    | .sum ts => (.one, reduceTerms A ts q, q)
    | p => (takeReal? A p q).getD (.one, p, q)
  let r := match known? A p' q' with
    | some r => r
    | none => if p'.same p && q'.same q then .apply .mod [p, q] else A.apply .mod [p', q']
  A.product [g, h, r]

/-- The remainder by a divisor that is not zero. -/
def of (A : Algebra ν) (x y : Term ν) : Term ν :=
  match known? A x y with
  | some r => r
  | none => (ofRemainder? A x y).getD (reduced A x y)

end Remainder

end InitialValue.Symbolic
