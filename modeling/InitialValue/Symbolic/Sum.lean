/-
  Sums.

  The terms of a sum are collected: equal terms up to a number in front are added, numbers are
  added up in front, and what cancels is gone.  An infinity swallows the constants beside it.
-/
import InitialValue.Symbolic.Algebra
import InitialValue.Symbolic.Approx

namespace InitialValue.Symbolic

variable {ν : Type} [Ord ν]

namespace Sum

/-- Adds a multiple of a term to a collection. -/
def collect (rest : Term ν) (c : Coefficient) :
    List (Term ν × Coefficient) → List (Term ν × Coefficient)
  | [] => [(rest, c)]
  | (t, d) :: more =>
    if t.same rest then (t, d.add c) :: more else (t, d) :: collect rest c more

/-- The number part and the collected other terms of a list of terms. -/
def gather (ts : List (Term ν)) : Coefficient × List (Term ν × Coefficient) :=
  ts.foldl (fun acc t =>
    match t.split with
    | (n, .num (.rat _)) => (acc.1.add n, acc.2)
    | (c, rest) => (acc.1, collect rest c acc.2)) (.zero, [])

/-- A multiple of a term, as it stands in a sum. -/
def multiple (t : Term ν) (c : Coefficient) : Term ν :=
  if c == .one then t
  else match t with
    | .product fs => .product (.num c :: fs)
    | t => .product [.num c, t]

/-- A sum of finite terms. -/
def ofFinite (ts : List (Term ν)) : Term ν :=
  let (n, collected) := gather ts
  let rest := (collected.filter fun x => !x.2.isZero).map fun x => multiple x.1 x.2
  Term.ofTerms (Term.inOrder (if n.isZero then rest else .num n :: rest))

/-- A sum with infinite terms: infinities of different directions have no sum, and one swallows
    what is known to be real. -/
def ofInfinite (infinite finite : List (Term ν)) : Term ν :=
  match infinite with
  | [] => ofFinite finite
  | x :: more =>
    if x.isPole then (if more.isEmpty then .pole else .undefined)
    else if more.all fun y => y.same x then
      Term.ofTerms (Term.inOrder (x :: finite.filter fun t => !t.isRealValued))
    else .undefined

end Sum

/-- The sum of terms. -/
def Algebra.sumStep (_ : Algebra ν) (ts : List (Term ν)) : Term ν :=
  let ts := ts.flatMap Term.terms
  if ts.any Term.isUndefined then .undefined
  else
    let (infinite, finite) := ts.partition Term.isInfinite
    if infinite.isEmpty then Sum.ofFinite finite else Sum.ofInfinite infinite finite

end InitialValue.Symbolic
