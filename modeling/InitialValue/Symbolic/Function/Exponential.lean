/-
  The exponential function and the logarithm.

  The exponential takes logarithms out of its argument and falls apart over sums where a summand has
  an exact value; multiples of a right angle times the imaginary unit are exact.  The logarithm of a
  negative number has an imaginary part; its pole at zero is the infinity without direction.  A
  logarithm to a whole base takes out the powers of the base.
-/
import InitialValue.Symbolic.Function.Numeric
import InitialValue.Symbolic.Power

namespace InitialValue.Symbolic

variable {ν : Type} [Ord ν]

namespace Exponential

/-! ## The exponential -/

/-- The number in front of `π` times the imaginary unit. -/
def angle? (x : Term ν) : Option Rat :=
  match x with
  | .product [.const .pi, .const .unit] => some 1
  | .product [.num (.rat q), .const .pi, .const .unit] => some q
  | _ => none

/-- The exponential of `q · π` times the imaginary unit, as far as it simplifies. -/
def ofAngle? (A : Algebra ν) (q : Rat) : Option (Term ν) :=
  let r := q - 2 * (q / 2).floor
  if r = 0 then some .one
  else if r = 1 then some (.ofInt (-1))
  else if r = 1 / 2 then some .unit
  else if r = 3 / 2 then some (.product [.ofInt (-1), .unit])
  else
    let r := if 1 < r then r - 2 else r
    if r = q then none
    else some (A.apply .exp [A.product [.ofRat r, .pi, .unit]])

/-- The argument of a logarithm among factors and the other factors, when there is exactly one and
    the others are real constants. -/
def logFactor? : List (Term ν) → Option (Option (Term ν) × List (Term ν))
  | [] => some (none, [])
  | f :: fs => do
    let (found, rest) ← logFactor? fs
    match f with
    | .apply .log [x] => if found.isSome then none else return (some x, rest)
    | f => if f.isConstant && f.standing.isReal then return (found, f :: rest) else none

/-- The exponential of a product. -/
def ofProduct? (A : Algebra ν) (x : Term ν) : Option (Term ν) :=
  match (angle? x).bind (ofAngle? A) with
  | some t => some t
  | none =>
    match logFactor? x.factors with
    | some (some y, coeffs) => some (A.power y (A.product coeffs))
    | _ => none

/-- The exponential of a sum: summands with a simpler exponential become factors. -/
def ofSum? (A : Algebra ν) (ts : List (Term ν)) : Option (Term ν) :=
  let parts := ts.map fun t => (t, if t.isOne then .apply .exp [t] else A.apply .exp [t])
  let outside := parts.filterMap fun (_, e) => match e with
    | .apply .exp [_] => none
    | .const .euler => none
    | e => some e
  let inside := parts.filterMap fun (t, e) => match e with
    | .apply .exp [y] => some y
    | .const .euler => some t
    | _ => none
  if outside.isEmpty then none
  else
    let rest := A.sum inside
    some (A.product (outside ++ [if rest.isZero then .one else .apply .exp [rest]]))

/-- The exponential. -/
def exp (A : Algebra ν) (x : Term ν) : Term ν :=
  match x with
  | .num (.rat q) => if q = 0 then .one else if q = 1 then .euler else .apply .exp [x]
  | .num (.real y) => .num (Numeric.exp y)
  | .const .undefined => .undefined
  | .const .pole => .undefined
  | .const .infinity => .const .infinity
  | .const .minusInfinity => .zero
  | .apply .log [y] => y
  | .product _ => (ofProduct? A x).getD (.apply .exp [x])
  | .sum ts => (ofSum? A ts).getD (.apply .exp [x])
  | x => .apply .exp [x]

/-! ## The logarithm -/

/-- The number in front of the imaginary unit. -/
def unitFactor? (x : Term ν) : Option Rat :=
  match x with
  | .const .unit => some 1
  | .product [.num (.rat q), .const .unit] => some q
  | _ => none

/-- The logarithm of a constant that is not a number. -/
def ofConstant (A : Algebra ν) (x : Term ν) : Term ν :=
  if x.standing == .negative then A.sum [A.product [.pi, .unit], A.apply .log [A.neg x]]
  else match unitFactor? x with
    | some q =>
      let half : Term ν := A.product [.ofRat (if q < 0 then -1 / 2 else 1 / 2), .pi, .unit]
      A.sum [half, A.apply .log [.ofRat (if q < 0 then -q else q)]]
    | none => .apply .log [x]

/-- The logarithm. -/
def log (A : Algebra ν) (x : Term ν) : Term ν :=
  match x with
  | .num (.rat q) =>
    if q = 0 then .pole
    else if q = 1 then .zero
    else if q < 0 then A.sum [A.product [.pi, .unit], A.apply .log [.ofRat (-q)]]
    else if q.num = 1 then A.neg (.apply .log [.ofInt q.den])
    else .apply .log [x]
  | .num (.real y) =>
    if y.isZero then .pole
    else if y.isNegative then A.sum [A.product [.pi, .unit], .num (Numeric.log y.neg)]
    else .num (Numeric.log y)
  | .const .euler => .one
  | .const .pole => .pole
  | .const .infinity => .const .infinity
  | .const .minusInfinity => .const .infinity
  | .const .undefined => .undefined
  | .apply .exp [y] => if y.isRealValued then y else .apply .log [x]
  | x => if x.isConstant then ofConstant A x else .apply .log [x]

/-- How often a whole base above one divides a number that is not zero. -/
def multiplicity (base n : Nat) : Nat := (divideOut base (n.log2 + 1) n).1

/-- How often a positive quotient is contained in another. -/
def multiplicity? (base x : Rat) : Option Int :=
  let b := base.num.natAbs
  let n := x.num.natAbs
  if base.den = 1 && x.den = 1 then
    if x = 0 || base.num < 2 then none else some (multiplicity b n)
  else if base ≤ 0 || x = 0 then none
  else if base.den = 1 then
    if b < 2 then none
    else if x.num = 1 then some (-(multiplicity b x.den : Int))
    else some ((multiplicity b n : Int) - multiplicity b x.den)
  else if base.num = 1 then
    if x.num = 1 then some (multiplicity base.den x.den)
    else some ((multiplicity base.den x.den : Int) - multiplicity base.den n)
  else
    let like := min (multiplicity b n) (multiplicity base.den x.den)
    let cross := min (multiplicity base.den n) (multiplicity b x.den)
    some ((like : Int) - cross)

/-- The quotient of two logarithms. -/
def ratio (A : Algebra ν) (x base : Term ν) : Term ν :=
  A.div (A.apply .log [x]) (A.apply .log [base])

/-- The logarithm to a base. -/
def logBase (A : Algebra ν) (x base : Term ν) : Term ν :=
  if base.isOne then (if x.isOne then .undefined else .pole)
  else match x.rat?, base.rat? with
    | some q, some b =>
      match multiplicity? b q with
      | some n =>
        if n = 0 then ratio A x base
        else
          let scale : Rat := if 0 ≤ n then b ^ n.toNat else (b⁻¹) ^ n.natAbs
          A.add (.ofInt n) (ratio A (.ofRat (q / scale)) base)
      | none => ratio A x base
    | _, _ =>
      match base with
      | .const .euler => A.apply .log [x]
      | base => ratio A x base

end Exponential

end InitialValue.Symbolic
