/-
  Greatest and least of several terms.

  Of several candidates those are dropped that another one is known to beat: equal ones, those whose
  difference to another is a number of known sign, and extrema of the other side that have a
  candidate, or a number worse than one, among their own.
-/
import InitialValue.Symbolic.Function.Magnitude

namespace InitialValue.Symbolic

variable {ν : Type} [Ord ν]

namespace Extremum

/-- Greatest or least. -/
structure Side where
  fn : Fn
  other : Fn
  /-- what beats everything -/
  best : Constant
  /-- what everything beats -/
  worst : Constant
  /-- does a candidate with this difference to another one win? -/
  wins : Standing → Bool

/-- The greatest. -/
def greatest : Side :=
  ⟨.max, .min, .infinity, .minusInfinity, fun s => s.isNonNegative⟩

/-- The least. -/
def least : Side :=
  ⟨.min, .max, .minusInfinity, .infinity, fun s => s.neg.isNonNegative⟩

/-- Is the term a given constant? -/
def isConst (c : Constant) : Term ν → Bool
  | .const d => d == c
  | _ => false

/-- The candidates, those of inner extrema of the same side included. -/
def flatten (s : Side) (args : List (Term ν)) : List (Term ν) :=
  args.flatMap fun
    | .apply f inner => if f == s.fn then inner else [.apply f inner]
    | t => [t]

/-- Does the first candidate beat the second for sure? -/
def beats (A : Algebra ν) (s : Side) (x y : Term ν) : Bool :=
  x.same y ||
    (if x.isConstant && y.isConstant then s.wins (A.sub x y).standing
     else
      let d := A.sub x y
      d.isConstant && s.wins d.standing)

/-- Is the candidate an extremum of the other side that has the term among its own? -/
def containsInner (s : Side) (t : Term ν) : Term ν → Bool
  | .apply f inner => f == s.other && inner.any fun u => u.same t
  | _ => false

/-- Adds a candidate unless one already there beats it, and drops those that it beats. -/
def compete (A : Algebra ν) (s : Side) (kept : List (Term ν)) (x : Term ν) : List (Term ν) :=
  if kept.any fun y => beats A s y x || containsInner s y x then kept
  else (kept.filter fun y => !(beats A s x y || containsInner s x y)) ++ [x]

/-- A number, or a constant that has a name. -/
def isPlainNumber : Term ν → Bool
  | .num _ => true
  | .const c => c == .pi || c == .euler
  | _ => false

/-- Is the candidate an extremum of the other side that a number in it keeps from winning against
    the numbers among the candidates? -/
def isBarred (A : Algebra ν) (s : Side) (numbers : List (Term ν)) : Term ν → Bool
  | .apply f inner => f == s.other && (inner.filter isPlainNumber).any fun n =>
      numbers.any fun m =>
        let d := (A.sub m n).standing
        s.wins d && d != .zero
  | _ => false

/-- The extremum of some terms. -/
def of (A : Algebra ν) (s : Side) (args : List (Term ν)) : Term ν :=
  let args := flatten s args
  if args.any (isConst s.best) then .const s.best
  else
    let args := args.filter fun t => !isConst s.worst t
    let args := args.filter fun t => !isBarred A s (args.filter isPlainNumber) t
    match args.foldl (compete A s) [] with
    | [] => .const s.worst
    | [t] => t
    | kept => .apply s.fn (Term.inOrder kept)

/-- Can the term be compared?  Constants have to be real. -/
def isComparable (t : Term ν) : Bool :=
  if t.isUndefined || t.isPole then false
  else if t.isConstant && !t.isInfinite then t.standing.isReal
  else !t.standing.isNotReal

end Extremum

end InitialValue.Symbolic
