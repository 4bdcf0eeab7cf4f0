/-
  The operations of the algebra, as a record.

  Sums, products, powers and functions simplify by calling one another, often on terms that are not
  parts of their arguments.  So each of them is written over an `Algebra`, the operations it may
  call, and the whole algebra is the limit of finitely many layers: layer `n + 1` calls layer `n`,
  and layer zero only puts terms together.
-/
import InitialValue.Symbolic.Term

namespace InitialValue.Symbolic

/-- Operations on terms. -/
structure Algebra (ν : Type) where
  sum : List (Term ν) → Term ν
  product : List (Term ν) → Term ν
  power : Term ν → Term ν → Term ν
  apply : Fn → List (Term ν) → Term ν

namespace Algebra

variable {ν : Type}

/-- Puts terms together without simplifying. -/
def inert : Algebra ν where
  sum := Term.ofTerms
  product := Term.ofFactors
  power := .power
  apply := .apply

variable (A : Algebra ν)

/-- The opposite. -/
def neg (x : Term ν) : Term ν := A.product [.ofInt (-1), x]

/-- The sum of two terms. -/
def add (x y : Term ν) : Term ν := A.sum [x, y]

/-- The difference. -/
def sub (x y : Term ν) : Term ν := A.sum [x, A.neg y]

/-- The product of two terms. -/
def mul (x y : Term ν) : Term ν := A.product [x, y]

/-- The reciprocal. -/
def inv (x : Term ν) : Term ν := A.power x (.ofInt (-1))

/-- The quotient. -/
def div (x y : Term ν) : Term ν := if x.isOne then A.inv y else A.mul x (A.inv y)

/-- The square root. -/
def sqrt (x : Term ν) : Term ν := A.power x (.num .half)

end Algebra

end InitialValue.Symbolic
