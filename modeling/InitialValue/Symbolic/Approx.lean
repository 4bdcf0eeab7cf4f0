/-
  Machine values of constant terms.

  A term without symbols has a complex value; `approx?` computes it to machine precision, unless
  some part of it is a function nothing is known of.  The value decides questions of sign and of
  order that the rules of the algebra ask.
-/
import InitialValue.Number.Complex
import InitialValue.Symbolic.Term

namespace InitialValue.Symbolic

/-- The value of a constant. -/
def Constant.value : Constant → Complex
  | .pi => .ofReal 3.141592653589793
  | .euler => .ofReal 2.718281828459045
  | .unit => .unit
  | .infinity => .ofReal (1.0 / 0.0)
  | .minusInfinity => .ofReal (-1.0 / 0.0)
  | .pole => .ofReal (0.0 / 0.0)
  | .undefined => .ofReal (0.0 / 0.0)

namespace Fn

/-- A function of reals as a function of complex numbers, with another for what is not real or
    outside its domain. -/
def onReals (f : Float → Float) (g : Complex → Complex) (z : Complex) : Complex :=
  if z.isReal then
    let y := f z.re
    if y.isNaN then g z else .ofReal y
  else g z

/-- The value of a function of one argument. -/
def value1? : Fn → Option (Complex → Complex)
  | .sin => some (onReals Float.sin Complex.sin)
  | .cos => some (onReals Float.cos Complex.cos)
  | .tan => some (onReals Float.tan Complex.tan)
  | .sec => some fun z => .div (.ofReal 1.0) (onReals Float.cos Complex.cos z)
  | .csc => some fun z => .div (.ofReal 1.0) (onReals Float.sin Complex.sin z)
  | .cot => some fun z => .div (.ofReal 1.0) (onReals Float.tan Complex.tan z)
  | .asin => some (onReals Float.asin Complex.asin)
  | .acos => some (onReals Float.acos Complex.acos)
  | .atan => some (onReals Float.atan Complex.atan)
  | .sinh => some (onReals Float.sinh Complex.sinh)
  | .cosh => some (onReals Float.cosh Complex.cosh)
  | .tanh => some (onReals Float.tanh Complex.tanh)
  | .asinh => some (onReals Float.asinh Complex.asinh)
  | .atanh => some (onReals Float.atanh Complex.atanh)
  | .exp => some (onReals Float.exp Complex.exp)
  | .log => some (onReals Float.log Complex.log)
  | .abs => some fun z => .ofReal z.abs
  | .sign => some Complex.sign
  | .floor => some fun z => ⟨z.re.floor, z.im.floor⟩
  | .ceil => some fun z => ⟨z.re.ceil, z.im.ceil⟩
  | _ => none

/-- The value of a function of two arguments. -/
def value2? : Fn → Option (Complex → Complex → Complex)
  | .atan2 => some fun y x => .ofReal (Float.atan2 y.re x.re)
  | .mod => some fun x y => .ofReal (x.re - y.re * (x.re / y.re).floor)
  | _ => none

/-- The value of a function at values. -/
def value? (f : Fn) (zs : List Complex) : Option Complex :=
  match f, zs with
  | .max, z :: rest => some (rest.foldl (fun m z => if m.re < z.re then z else m) z)
  | .min, z :: rest => some (rest.foldl (fun m z => if z.re < m.re then z else m) z)
  | f, [z] => f.value1?.map (· z)
  | f, [z, w] => f.value2?.map fun g => g z w
  | _, _ => none

end Fn

namespace Term

variable {ν : Type}

mutual

/-- The machine value of a constant term. -/
def approx? : Term ν → Option Complex
  | .num n => some (.ofReal n.toFloat)
  | .const c => some c.value
  | .symbol _ => none
  | .stranger _ => none
  | .sum ts => (approxAll? ts).map fun zs => zs.foldl Complex.add (.ofReal 0.0)
  | .product fs => (approxAll? fs).map fun zs => zs.foldl Complex.mul (.ofReal 1.0)
  | .power b e =>
    match approx? b, approx? e with
    | some x, some y =>
      if x.isReal && y.isReal && (0.0 ≤ x.re || y.re.floor == y.re) then
        some (.ofReal (x.re.pow y.re))
      else some (x.pow y)
    | _, _ => none
  | .apply f args =>
    match approxAll? args with
    | some zs => f.value? zs
    | none => none

/-- The machine values of constant terms. -/
def approxAll? : List (Term ν) → Option (List Complex)
  | [] => some []
  | t :: ts =>
    match approx? t, approxAll? ts with
    | some z, some zs => some (z :: zs)
    | _, _ => none

end

end Term

/-! ## Signs -/

/-- What is known of the value of a term. -/
inductive Standing where
  | zero
  | positive
  | negative
  | nonNegative
  | nonPositive
  | real
  /-- a real multiple of the imaginary unit, and not zero -/
  | imaginary
  /-- neither real nor a multiple of the imaginary unit -/
  | complex
  | unknown
  deriving DecidableEq

namespace Standing

/-- Known to be real? -/
def isReal : Standing → Bool
  | .imaginary => false
  | .complex => false
  | .unknown => false
  | _ => true

/-- Known to be at least zero? -/
def isNonNegative : Standing → Bool
  | .zero => true
  | .positive => true
  | .nonNegative => true
  | _ => false

/-- Known not to be a number that is at least zero? -/
def isNotNonNegative : Standing → Bool
  | .negative => true
  | .imaginary => true
  | .complex => true
  | _ => false

/-- Known not to be real? -/
def isNotReal : Standing → Bool
  | .imaginary => true
  | .complex => true
  | _ => false

/-- The standing of the opposite. -/
def neg : Standing → Standing
  | .positive => .negative
  | .negative => .positive
  | .nonNegative => .nonPositive
  | .nonPositive => .nonNegative
  | s => s

/-- The standing of a product. -/
def mul : Standing → Standing → Standing
  | .unknown, _ => .unknown
  | _, .unknown => .unknown
  | .zero, _ => .zero
  | _, .zero => .zero
  | .positive, s => s
  | s, .positive => s
  | .negative, s => s.neg
  | s, .negative => s.neg
  | .nonNegative, .nonNegative => .nonNegative
  | .nonPositive, .nonPositive => .nonNegative
  | .nonNegative, .nonPositive => .nonPositive
  | .nonPositive, .nonNegative => .nonPositive
  | .imaginary, .imaginary => .real
  | .imaginary, _ => .unknown
  | _, .imaginary => .unknown
  | .complex, _ => .unknown
  | _, .complex => .unknown
  | _, _ => .real

/-- The standing of a sum. -/
def add : Standing → Standing → Standing
  | .unknown, _ => .unknown
  | _, .unknown => .unknown
  | .zero, s => s
  | s, .zero => s
  | .positive, .positive => .positive
  | .positive, .nonNegative => .positive
  | .nonNegative, .positive => .positive
  | .nonNegative, .nonNegative => .nonNegative
  | .negative, .negative => .negative
  | .negative, .nonPositive => .negative
  | .nonPositive, .negative => .negative
  | .nonPositive, .nonPositive => .nonPositive
  | .imaginary, .imaginary => .unknown
  | .complex, _ => .unknown
  | _, .complex => .unknown
  | .imaginary, _ => .unknown
  | _, .imaginary => .unknown
  | _, _ => .real

/-- Values that cancel this far count as zero. -/
def negligible : Float := 1e-13

/-- The standing of a value. -/
def ofComplex (z : Complex) : Standing :=
  if z.re.isNaN || z.im.isNaN then .unknown
  else
    let r := z.re.abs
    let i := z.im.abs
    if i ≤ negligible * r || i == 0.0 then
      if r == 0.0 then .zero else if z.re < 0.0 then .negative else .positive
    else if r ≤ negligible * i then .imaginary
    else .complex

end Standing

namespace Term

variable {ν : Type}

mutual

/-- What is known of the value of a term, from the parts it is made of. -/
def standingOf : Term ν → Standing
  | .num n => if n.isZero then .zero else if n.isNegative then .negative else .positive
  | .const c => if c == .pole then .complex else .ofComplex c.value
  | .sum ts => standingOfSum ts
  | .product fs => standingOfProduct fs
  | .power b e =>
    match approxOfPower? b e with
    | some z => .ofComplex z
    | none =>
      match standingOf b, e.rat? with
      | s, some q =>
        if q.den = 1 then
          if s.isReal then
            if q.num % 2 = 0 then
              (if s == .positive || s == .negative then .positive else .nonNegative)
            else s
          else .unknown
        else if s.isNonNegative then s
        else .unknown
      | s, none => if s.isNonNegative && (standingOf e).isReal then s else .unknown
  | .apply f args =>
    match approxOfApply? f args with
    | some z => .ofComplex z
    | none =>
      match f, args with
      | .abs, _ => .nonNegative
      | .exp, [x] => if (standingOf x).isReal then .positive else .unknown
      | .cosh, [x] => if (standingOf x).isReal then .positive else .unknown
      | .sin, [x] => realOf (standingOf x)
      | .cos, [x] => realOf (standingOf x)
      | .sinh, [x] => keepOf (standingOf x)
      | .tanh, [x] => keepOf (standingOf x)
      | .atan, [x] => keepOf (standingOf x)
      | .sign, [x] => keepOf (standingOf x)
      | .floor, [x] => if (standingOf x).isNonNegative then .nonNegative else realOf (standingOf x)
      | .ceil, [x] => if (standingOf x).isNonNegative then .nonNegative else realOf (standingOf x)
      | .log, [x] => if standingOf x == .positive then .real else .unknown
      | _, _ => .unknown
  | _ => .unknown
where
  /-- Real for a real argument. -/
  realOf (s : Standing) : Standing := if s.isReal then .real else .unknown
  /-- Of the same sign as a real argument. -/
  keepOf (s : Standing) : Standing := if s.isReal then s else .unknown
  approxOfPower? (b e : Term ν) : Option Complex :=
    if b.isConstant && e.isConstant then (Term.power b e).approx? else none
  approxOfApply? (f : Fn) (args : List (Term ν)) : Option Complex :=
    if (Term.apply f args).isConstant then (Term.apply f args).approx? else none

/-- What is known of a sum. -/
def standingOfSum : List (Term ν) → Standing
  | [] => .zero
  | t :: ts => (standingOf t).add (standingOfSum ts)

/-- What is known of a product. -/
def standingOfProduct : List (Term ν) → Standing
  | [] => .positive
  | t :: ts => (standingOf t).mul (standingOfProduct ts)

end

/-- What is known of the value of a term; the value itself decides for a constant one. -/
def standing (t : Term ν) : Standing :=
  match t with
  | .const .pole => .complex
  | t =>
    if t.isConstant then
      match t.approx? with
      | some z => .ofComplex z
      | none => t.standingOf
    else t.standingOf

/-- Known to be at least zero? -/
def isNonNegative (t : Term ν) : Bool := t.standing.isNonNegative

/-- Known to be real? -/
def isRealValued (t : Term ν) : Bool := t.standing.isReal

end Term

end InitialValue.Symbolic
