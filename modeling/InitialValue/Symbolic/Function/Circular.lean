/-
  The circular functions and their inverses.

  A minus sign is moved out of the argument, an imaginary argument leads to the hyperbolic function,
  rational multiples of a straight angle reduce to the first quadrant and have exact values where
  these need no nested roots, and multiples of a right angle are split off sums.  A function of its
  inverse is its argument.
-/
import InitialValue.Symbolic.Function.Numeric
import InitialValue.Symbolic.Key
import InitialValue.Symbolic.Power

namespace InitialValue.Symbolic

variable {ν : Type} [Ord ν]

namespace Circular

/-! ## Multiples of a straight angle -/

/-- A term without one factor, if it has it. -/
def without? (c : Constant) (t : Term ν) : Option (Term ν) :=
  let isIt : Term ν → Bool
    | .const d => d == c
    | _ => false
  if isIt t then some .one
  else match t with
    | .product fs =>
      if fs.any isIt then some (Term.ofFactors (fs.filter fun f => !isIt f)) else none
    | _ => none

/-- A binary real that is a whole number, or one over a power of two beside it, as a quotient. -/
def exactPart (x : Rounded) : Coefficient :=
  if x.isWhole then .rat x.toRat
  else
    let f := x.abs.toRat - (x.abs.toRat.floor : Int)
    let p := (-(Float.log2 (Binary.ofRat f)) + 0.5).floor.toUInt64.toNat
    let scaled := x.toRat * 2 ^ p
    if scaled.den = 1 then .rat x.toRat else .real x

/-- What stands in front of `π`: for a number, modulo two. -/
def straight? (A : Algebra ν) (x : Term ν) : Option (Term ν) := do
  let t ← without? .pi x
  let (c, rest) := t.split
  let c := match c with
    | .real y => exactPart y
    | c => c
  if rest.isOne then return .num (c.mod (.rat 2))
  else if c == t.split.1 then return t
  else return A.mul (.num c) rest

/-- The number in front of the imaginary unit, or whatever stands there. -/
def imaginary? (x : Term ν) : Option (Term ν) := do
  let t ← without? .unit x
  if t.hasUnit then none else return t

/-- Splits multiples of a right angle, in units of `π`, off a sum. -/
def splitRight? (A : Algebra ν) (ts : List (Term ν)) : Option (Rat × Term ν) :=
  let parts := ts.map fun t => (t, (without? .pi t).bind Term.rat?)
  let total := parts.foldl (fun q p => q + p.2.getD 0) (0 : Rat)
  let left := total - (2 * total).floor / 2
  let off := total - left
  if off = 0 then none
  else
    let others := parts.filterMap fun (t, q?) => if q?.isSome then none else some t
    some (off, A.sum (others ++ [A.product [.ofRat left, .pi]]))

/-! ## Exact values -/

/-- The cosine of `q · π` for `q` from zero to a half, where it is simple. -/
def quadrant? (q : Rat) : Option (Term ν) :=
  if q = 0 then some .one
  else if q = 1 / 2 then some .zero
  else if q = 1 / 3 then some (.num .half)
  else if q = 1 / 4 then some (.product [.num .half, .power (.ofInt 2) (.num .half)])
  else if q = 1 / 6 then some (.product [.num .half, .power (.ofInt 3) (.num .half)])
  else none

/-- The cosine of `q · π`, where it is simple. -/
def cosine? (q : Rat) : Option (Term ν) :=
  let r := q - 2 * (q / 2).floor
  let r := if 1 < r then 2 - r else r
  if r ≤ 1 / 2 then quadrant? r else (quadrant? (1 - r)).map Term.negate

/-- The sine of `q · π`, where it is simple. -/
def sine? (q : Rat) : Option (Term ν) := cosine? (q - 1 / 2)

/-- A multiple of `π`. -/
def timesPi (A : Algebra ν) (q : Rat) : Term ν := A.product [.ofRat q, .pi]

/-! ## Sine and cosine -/

/-- The sine of a multiple of `π`. -/
def sinOfPi (A : Algebra ν) (x c : Term ν) : Term ν :=
  match c with
  | .num (.rat q) =>
    match sine? q with
    | some t => t
    | none =>
      let r := q - 2 * (q / 2).floor
      if 1 < r then A.neg (A.apply .sin [timesPi A (r - 1)])
      else if 1 / 2 < r then A.apply .sin [timesPi A (1 - r)]
      else if (timesPi A r).same x then .apply .sin [x]
      else A.apply .sin [timesPi A r]
  | c =>
    let y := A.mul c .pi
    if y.same x then .apply .sin [x] else A.apply .sin [y]

/-- The cosine of a multiple of `π`. -/
def cosOfPi (A : Algebra ν) (x c : Term ν) : Term ν :=
  match c with
  | .num (.rat q) =>
    match cosine? q with
    | some t => t
    | none =>
      let r := q - 2 * (q / 2).floor
      if 1 < r then A.neg (A.apply .cos [timesPi A (r - 1)])
      else if 1 / 2 < r then A.neg (A.apply .cos [timesPi A (1 - r)])
      else if (timesPi A r).same x then .apply .cos [x]
      else A.apply .cos [timesPi A r]
  | c =>
    let y := A.mul c .pi
    if y.same x then .apply .cos [x] else A.apply .cos [y]

/-- One minus a square, under a root. -/
def rootOfOneMinusSquare (A : Algebra ν) (x : Term ν) : Term ν :=
  A.sqrt (A.sub .one (A.power x (.ofInt 2)))

/-- The root of one plus a square. -/
def rootOfOnePlusSquare (A : Algebra ν) (x : Term ν) : Term ν :=
  A.sqrt (A.sum [.one, A.power x (.ofInt 2)])

/-- The root of a sum of two squares. -/
def hypotenuse (A : Algebra ν) (x y : Term ν) : Term ν :=
  A.sqrt (A.sum [A.power x (.ofInt 2), A.power y (.ofInt 2)])

/-- The sine. -/
def sin (A : Algebra ν) (x : Term ν) : Term ν :=
  if x.isZero then .zero
  else if x.isUndefined || x.isInfinite then .undefined
  else if x.prefersOpposite then A.neg (A.apply .sin [A.neg x])
  else match imaginary? x with
    | some y => A.mul .unit (A.apply .sinh [y])
    | none =>
      match straight? A x with
      | some c => sinOfPi A x c
      | none =>
        match x with
        | .sum ts =>
          match splitRight? A ts with
          | some (q, rest) =>
            A.sum [A.mul (A.apply .sin [timesPi A q]) (A.apply .cos [rest]),
              A.mul (A.apply .cos [timesPi A q]) (A.apply .sin [rest])]
          | none => .apply .sin [x]
        | .apply .asin [y] => y
        | .apply .acos [y] => rootOfOneMinusSquare A y
        | .apply .atan [y] => A.div y (rootOfOnePlusSquare A y)
        | .apply .atan2 [y, z] => A.div y (hypotenuse A z y)
        | x => .apply .sin [x]

/-- The cosine. -/
def cos (A : Algebra ν) (x : Term ν) : Term ν :=
  if x.isZero then .one
  else if x.isUndefined || x.isInfinite then .undefined
  else if x.prefersOpposite then A.apply .cos [A.neg x]
  else match imaginary? x with
    | some y => A.apply .cosh [y]
    | none =>
      match straight? A x with
      | some c => cosOfPi A x c
      | none =>
        match x with
        | .sum ts =>
          match splitRight? A ts with
          | some (q, rest) =>
            A.sub (A.mul (A.apply .cos [timesPi A q]) (A.apply .cos [rest]))
              (A.mul (A.apply .sin [timesPi A q]) (A.apply .sin [rest]))
          | none => .apply .cos [x]
        | .apply .acos [y] => y
        | .apply .asin [y] => rootOfOneMinusSquare A y
        | .apply .atan [y] => A.inv (rootOfOnePlusSquare A y)
        | .apply .atan2 [y, z] => A.div z (hypotenuse A z y)
        | x => .apply .cos [x]

/-! ## Tangent and cotangent -/

/-- A quotient of sine and cosine of a multiple of `π`, where both are simple. -/
def quotient? (A : Algebra ν) (top bottom : Option (Term ν)) : Option (Term ν) := do
  let s ← top
  let c ← bottom
  return if c.isZero then .pole else A.div s c

/-- A tangent or cotangent of a multiple of `π`. -/
def slopeOfPi (A : Algebra ν) (f : Fn) (value? : Rat → Option (Term ν)) (x c : Term ν) : Term ν :=
  match c with
  | .num (.rat q) =>
    match value? q with
    | some t => t
    | none =>
      let r := (q + 1 / 2) - (q + 1 / 2).floor - 1 / 2
      if (timesPi A r).same x then .apply f [x] else A.apply f [timesPi A r]
  | c =>
    let y := A.mul c .pi
    if y.same x then .apply f [x] else A.apply f [y]

/-- The tangent. -/
def tan (A : Algebra ν) (x : Term ν) : Term ν :=
  if x.isZero then .zero
  else if x.isUndefined || x.isInfinite then .undefined
  else if x.prefersOpposite then A.neg (A.apply .tan [A.neg x])
  else match imaginary? x with
    | some y => A.mul .unit (A.apply .tanh [y])
    | none =>
      match straight? A x with
      | some c => slopeOfPi A .tan (fun q => quotient? A (sine? q) (cosine? q)) x c
      | none =>
        match x with
        | .sum ts =>
          match splitRight? A ts with
          | some (q, rest) =>
            if q.den = 1 then A.apply .tan [rest] else A.neg (A.apply .cot [rest])
          | none => .apply .tan [x]
        | .apply .atan [y] => y
        | .apply .atan2 [y, z] => A.div y z
        | .apply .asin [y] => A.div y (rootOfOneMinusSquare A y)
        | .apply .acos [y] => A.div (rootOfOneMinusSquare A y) y
        | x => .apply .tan [x]

/-- The cotangent. -/
def cot (A : Algebra ν) (x : Term ν) : Term ν :=
  if x.isZero then .pole
  else if x.isUndefined || x.isInfinite then .undefined
  else if x.prefersOpposite then A.neg (A.apply .cot [A.neg x])
  else match straight? A x with
    | some c => slopeOfPi A .cot (fun q => quotient? A (cosine? q) (sine? q)) x c
    | none =>
      match x with
      | .sum ts =>
        match splitRight? A ts with
        | some (q, rest) =>
          if q.den = 1 then A.apply .cot [rest] else A.neg (A.apply .tan [rest])
        | none => .apply .cot [x]
      | .apply .atan [y] => A.inv y
      | .apply .atan2 [y, z] => A.div z y
      | .apply .asin [y] => A.div (rootOfOneMinusSquare A y) y
      | .apply .acos [y] => A.div y (rootOfOneMinusSquare A y)
      | x => .apply .cot [x]

/-! ## Secant and cosecant -/

/-- The reciprocal of a sine or cosine that did not simplify to something else. -/
def reciprocal (A : Algebra ν) (t : Term ν) : Term ν :=
  match t with
  | .apply .cos [y] => .apply .sec [y]
  | .apply .sin [y] => .apply .csc [y]
  | .product [.num (.rat q), .apply .cos [y]] =>
    if q = -1 then A.neg (.apply .sec [y]) else A.inv t
  | .product [.num (.rat q), .apply .sin [y]] =>
    if q = -1 then A.neg (.apply .csc [y]) else A.inv t
  | t => A.inv t

/-- The secant. -/
def sec (A : Algebra ν) (x : Term ν) : Term ν :=
  if x.prefersOpposite then A.apply .sec [A.neg x] else reciprocal A (cos A x)

/-- The cosecant. -/
def csc (A : Algebra ν) (x : Term ν) : Term ν :=
  if x.prefersOpposite then A.neg (A.apply .csc [A.neg x]) else reciprocal A (sin A x)

/-! ## Inverse functions -/

/-- The angles, in units of `π`, of the simple values of the sine. -/
def arcSines : List (Term ν × Rat) := [
  (.num .half, 1 / 6),
  (.product [.num .half, .power (.ofInt 2) (.num .half)], 1 / 4),
  (.product [.num .half, .power (.ofInt 3) (.num .half)], 1 / 3),
  (.one, 1 / 2)]

/-- The angles, in units of `π`, of the simple values of the tangent. -/
def arcTangents : List (Term ν × Rat) := [
  (.product [.ofRat (1 / 3), .power (.ofInt 3) (.num .half)], 1 / 6),
  (.one, 1 / 4),
  (.power (.ofInt 3) (.num .half), 1 / 3)]

/-- The angle of a value. -/
def lookUp? (table : List (Term ν × Rat)) (x : Term ν) : Option Rat :=
  (table.find? fun p => p.1.same x).map (·.2)

/-- Moves an angle, in radians, by whole multiples of a period next to zero: how many. -/
def turnsOff (period a : Float) : Int := (a / period + 0.5).floor.toInt64.toInt

/-- A constant angle with the same sine between minus and plus a right angle. -/
def foldSine (A : Algebra ν) (y : Term ν) (a : Float) : Term ν :=
  let n := turnsOff 3.141592653589793 a
  let r := A.sub y (timesPi A n)
  if n % 2 = 0 then r else A.neg r

/-- A constant angle with the same cosine between zero and a straight angle. -/
def foldCosine (A : Algebra ν) (y : Term ν) (a : Float) : Term ν :=
  let n := turnsOff 6.283185307179586 a
  let r := A.sub y (timesPi A (2 * n))
  if a - Float.ofInt n * 6.283185307179586 < 0.0 then A.neg r else r

/-- The machine value of a real constant. -/
def realValue? (y : Term ν) : Option Float :=
  if y.isConstant then y.approx?.bind fun z => if z.isReal && z.re.isFinite then some z.re else none
  else none

/-- The inverse sine. -/
def asin (A : Algebra ν) (x : Term ν) : Term ν :=
  if x.isZero then .zero
  else if x.isUndefined then .undefined
  else if x.isPole then .pole
  else if x.prefersOpposite then A.neg (A.apply .asin [A.neg x])
  else match lookUp? arcSines x, imaginary? x with
    | some q, _ => timesPi A q
    | none, some y => A.mul .unit (A.apply .asinh [y])
    | none, none =>
      match x with
      | .apply .sin [y] =>
        match realValue? y with
        | some a => foldSine A y a
        | none => .apply .asin [x]
      | .apply .cos [y] =>
        match realValue? y with
        | some a => A.sub (timesPi A (1 / 2)) (foldCosine A y a)
        | none => .apply .asin [x]
      | x => .apply .asin [x]

/-- The inverse cosine. -/
def acos (A : Algebra ν) (x : Term ν) : Term ν :=
  if x.isUndefined then .undefined
  else if x.isPole then .pole
  else if x.rat? == some 0 then timesPi A (1 / 2)
  else match lookUp? arcSines x, lookUp? arcSines x.negate, imaginary? x with
    | some q, _, _ => timesPi A (1 / 2 - q)
    | _, some q, _ => timesPi A (1 / 2 + q)
    | none, none, some _ => A.sub (timesPi A (1 / 2)) (A.apply .asin [x])
    | none, none, none =>
      match x with
      | .apply .cos [y] =>
        match realValue? y with
        | some a => foldCosine A y a
        | none => .apply .acos [x]
      | .apply .sin [y] =>
        match realValue? y with
        | some a => A.sub (timesPi A (1 / 2)) (foldSine A y a)
        | none => .apply .acos [x]
      | x => .apply .acos [x]

/-- The inverse tangent. -/
def atan (A : Algebra ν) (x : Term ν) : Term ν :=
  if x.isZero then .zero
  else if x.isUndefined || x.isPole then .undefined
  else match x with
    | .const .infinity => timesPi A (1 / 2)
    | .const .minusInfinity => timesPi A (-1 / 2)
    | x =>
      if x.prefersOpposite then A.neg (A.apply .atan [A.neg x])
      else match lookUp? arcTangents x, imaginary? x with
        | some q, _ => timesPi A q
        | none, some y => A.mul .unit (A.apply .atanh [y])
        | none, none =>
          match x with
          | .apply .tan [y] =>
            match realValue? y with
            | some a => A.sub y (timesPi A (turnsOff 3.141592653589793 a))
            | none => .apply .atan [x]
          | x => .apply .atan [x]

/-- The angle of a point whose coordinates are constants that are not both real. -/
def complexAngle (A : Algebra ν) (y x : Term ν) : Term ν :=
  A.product [.ofInt (-1), .unit,
    A.apply .log [A.div (A.sum [x, A.mul .unit y]) (hypotenuse A x y)]]

/-- The angle of a point, given by its two coordinates, the vertical one first. -/
def atan2 (A : Algebra ν) (y x : Term ν) : Term ν :=
  let ky := y.standing
  let kx := x.standing
  if kx == .imaginary && ky == .imaginary && x.isConstant && y.isConstant then
    let turnedBack (z : Term ν) : Term ν := A.product [.ofInt (-1), .unit, z]
    A.apply .atan2 [turnedBack y, turnedBack x]
  else if x.isConstant && y.isConstant && (kx.isNotReal || ky.isNotReal) then complexAngle A y x
  else if ky.isReal && kx == .positive then A.apply .atan [A.div y x]
  else if kx == .negative && ky == .negative then
    A.sub (A.apply .atan [A.div y x]) .pi
  else if kx == .negative && ky.isNonNegative then
    A.sum [A.apply .atan [A.div y x], .pi]
  else if kx == .zero && ky == .positive then timesPi A (1 / 2)
  else if kx == .zero && ky == .negative then timesPi A (-1 / 2)
  else if kx == .zero && ky == .zero then .undefined
  else .apply .atan2 [y, x]

/-! ## Hyperbolic functions -/

/-- The hyperbolic sine. -/
def sinh (A : Algebra ν) (x : Term ν) : Term ν :=
  if x.isZero then .zero
  else if x.isUndefined || x.isPole then .undefined
  else if x.isInfinite then x
  else match imaginary? x with
    | some y => A.mul .unit (A.apply .sin [y])
    | none => if x.prefersOpposite then A.neg (A.apply .sinh [A.neg x]) else .apply .sinh [x]

/-- The hyperbolic cosine. -/
def cosh (A : Algebra ν) (x : Term ν) : Term ν :=
  if x.isZero then .one
  else if x.isUndefined || x.isPole then .undefined
  else if x.isInfinite then .const .infinity
  else match imaginary? x with
    | some y => A.apply .cos [y]
    | none => if x.prefersOpposite then A.apply .cosh [A.neg x] else .apply .cosh [x]

/-- The hyperbolic tangent. -/
def tanh (A : Algebra ν) (x : Term ν) : Term ν :=
  if x.isZero then .zero
  else if x.isUndefined || x.isPole then .undefined
  else match x with
    | .const .infinity => .one
    | .const .minusInfinity => .ofInt (-1)
    | x =>
      match imaginary? x with
      | some y => A.mul .unit (A.apply .tan [y])
      | none => if x.prefersOpposite then A.neg (A.apply .tanh [A.neg x]) else .apply .tanh [x]

/-- The inverse hyperbolic sine. -/
def asinh (A : Algebra ν) (x : Term ν) : Term ν :=
  if x.isZero then .zero
  else if x.isUndefined then .undefined
  else if x.isInfinite then x
  else if x.rat? == some 1 then A.apply .log [A.sum [.one, A.sqrt (.ofInt 2)]]
  else match imaginary? x with
    | some y => A.mul .unit (A.apply .asin [y])
    | none => if x.prefersOpposite then A.neg (A.apply .asinh [A.neg x]) else .apply .asinh [x]

/-- The inverse hyperbolic tangent. -/
def atanh (A : Algebra ν) (x : Term ν) : Term ν :=
  if x.isZero then .zero
  else if x.isUndefined || x.isInfinite then .undefined
  else if x.rat? == some 1 then .const .infinity
  else if x.rat? == some (-1) then .const .minusInfinity
  else match imaginary? x with
    | some y => A.mul .unit (A.apply .atan [y])
    | none => if x.prefersOpposite then A.neg (A.apply .atanh [A.neg x]) else .apply .atanh [x]

end Circular

end InitialValue.Symbolic
