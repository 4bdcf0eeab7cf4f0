/-
  The algebra of terms.

  One layer simplifies a function by its own rules, after which a function of a binary real is
  evaluated; sums, products and powers have theirs.  The algebra has a fixed number of layers, far
  more than any chain of rules that call one another needs.
-/
import InitialValue.Symbolic.Sum
import InitialValue.Symbolic.Function.Circular
import InitialValue.Symbolic.Function.Exponential
import InitialValue.Symbolic.Function.Extremum
import InitialValue.Symbolic.Function.Remainder

namespace InitialValue.Symbolic

variable {ν : Type} [Ord ν]

namespace Algebra

/-- A function of one argument, by its rules. -/
def applyOne (A : Algebra ν) (f : Fn) (x : Term ν) : Term ν :=
  match f with
  | .sin => Circular.sin A x
  | .cos => Circular.cos A x
  | .tan => Circular.tan A x
  | .sec => Circular.sec A x
  | .csc => Circular.csc A x
  | .cot => Circular.cot A x
  | .asin => Circular.asin A x
  | .acos => Circular.acos A x
  | .atan => Circular.atan A x
  | .sinh => Circular.sinh A x
  | .cosh => Circular.cosh A x
  | .tanh => Circular.tanh A x
  | .asinh => Circular.asinh A x
  | .atanh => Circular.atanh A x
  | .exp => Exponential.exp A x
  | .log => Exponential.log A x
  | .abs => Magnitude.abs A x
  | .sign => Magnitude.sign A x
  | .floor => Magnitude.roundTo A Magnitude.down x
  | .ceil => Magnitude.roundTo A Magnitude.up x
  | f => .apply f [x]

/-- A function left standing at a binary real is evaluated. -/
def evaluated (A : Algebra ν) (t : Term ν) : Term ν :=
  match t with
  | .apply f [.num (.real x)] => (Numeric.value1? A f x).getD t
  | t => t

/-- A function of arguments. -/
def applyStep (A : Algebra ν) (f : Fn) (args : List (Term ν)) : Term ν :=
  match f, args with
  | .max, args => Extremum.of A Extremum.greatest args
  | .min, args => Extremum.of A Extremum.least args
  | .mod, [x, y] => Remainder.of A x y
  | .atan2, [y, x] => Circular.atan2 A y x
  | f, [x] => if f.isOpaque then .apply f [x] else evaluated A (applyOne A f x)
  | f, args => .apply f args

/-- One more layer. -/
def step (A : Algebra ν) : Algebra ν where
  sum := A.sumStep
  product := A.productStep
  power := A.powerStep
  apply := A.applyStep

/-- An algebra of some layers. -/
def layers : Nat → Algebra ν
  | 0 => inert
  | n + 1 => step (layers n)

/-- The number of layers of the standard algebra. -/
def depth : Nat := 60

/-- The standard algebra. -/
def standard : Algebra ν := layers depth

end Algebra

end InitialValue.Symbolic
