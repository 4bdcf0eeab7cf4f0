/-
  Functions of binary reals.

  A function whose argument is a binary real is evaluated at once, to machine precision.  The
  exponential and the power work beyond the range of machine reals, by splitting off powers of two.
-/
import InitialValue.Symbolic.Algebra
import InitialValue.Symbolic.Approx
import InitialValue.Symbolic.Function.Angle

namespace InitialValue.Symbolic

namespace Numeric

/-- The binary real with a precision nearest to a machine real, as a number. -/
def ofFloat (prec : Nat) (x : Float) : Coefficient :=
  ((Rounded.ofFloat? prec x).map Coefficient.ofRounded).getD .zero

/-- The binary logarithm of Euler's number, and the natural logarithm of two. -/
def log2e : Float := 1.4426950408889634

def ln2 : Float := 0.6931471805599453

/-- The natural logarithm of two as a quotient, to many figures. -/
def ln2Exact : Rat :=
  mkRat 693147180559945309417232121458176568 1000000000000000000000000000000000000

/-- The exponential of any binary real: whole multiples of the logarithm of two become powers of
    two. -/
def exp (x : Rounded) : Coefficient :=
  if x.isZero then .one
  else
    let q := x.toRat
    let k := (q / ln2Exact + 1 / 2).floor
    let left := Binary.ofRat (q - ln2Exact * k)
    match Rounded.ofFloat? x.prec left.exp with
    | some y => .ofRounded { y with exp := y.exp + k }
    | none => .zero

/-- The natural logarithm of a positive binary real. -/
def log (x : Rounded) : Coefficient :=
  let e := x.magnitude
  let m : Rounded := { x with exp := x.exp - e }
  if -1000 < e && e < 1000 then ofFloat x.prec x.toFloat.log
  else ofFloat x.prec (m.toFloat.log + Float.ofInt e * ln2)

/-- A positive binary real raised to a number. -/
def power (prec : Nat) (x : Rounded) (e : Coefficient) : Coefficient :=
  let y := x.toFloat.pow e.toFloat
  if y.isFinite && y != 0.0 && x.toFloat.isFinite && x.toFloat != 0.0 then ofFloat prec y
  else
    match log x with
    | .real l => exp (l.mul (Rounded.ofRat (prec + 16) e.toRat)) |> fun n => match n with
      | .real z => .real (z.withPrec prec)
      | n => n
    | .rat _ => .one

variable {ν : Type}

/-- A complex value as a sum of a number and a multiple of the imaginary unit. -/
def ofComplex (A : Algebra ν) (prec : Nat) (z : Complex) : Term ν :=
  let re := ofFloat prec z.re
  let im := ofFloat prec z.im
  A.sum [.num re, A.product [.num im, .unit]]

/-- The value of a function of one argument at a binary real. -/
def value1? (A : Algebra ν) (f : Fn) (x : Rounded) : Option (Term ν) :=
  match f with
  | .exp => some (.num (exp x))
  | f =>
    match f.value1? with
    | some g =>
      let z := g (.ofReal (if f.isCircular then Angle.reduce x else x.toFloat))
      if z.re.isFinite && z.im.isFinite then
        if z.isReal then some (.num (ofFloat x.prec z.re)) else some (ofComplex A x.prec z)
      else hyperbolic? f x
    | none => none
where
  /-- Hyperbolic functions of arguments that are large. -/
  hyperbolic? (f : Fn) (x : Rounded) : Option (Term ν) :=
    match f, exp x.abs with
    | .sinh, .real y =>
      let h : Rounded := { y with exp := y.exp - 1 }
      some (.num (.real (if x.isNegative then h.neg else h)))
    | .cosh, .real y => some (.num (.real { y with exp := y.exp - 1 }))
    | _, _ => none

end Numeric

end InitialValue.Symbolic
