/-
  Solving equations given as text.

  Text is read before anything else is looked at: a formula that is rejected makes a failed solution
  with the reason for the rejection.  A system can be anything that is a collection of formulas;
  what is none makes a failed solution too.
-/
import InitialValue.Formula.Reading
import InitialValue.Solver.Solve

namespace InitialValue

open InitialValue.Formula

/-! ## Readings as right-hand sides -/

/-- The right-hand side of a valid reading, or why it was rejected. -/
def Formula.Single.rightSide (s : Single) : Except String (RightSide Float) :=
  match s.outcome with
  | .error r => .error r.message
  | .ok _ => .ok s.toRightSide

/-- The right-hand side of a valid reading, or why it was rejected. -/
def Formula.Coupled.rightSide (s : Coupled) : Except String (RightSide Float) :=
  match s.outcome with
  | .error r => .error r.message
  | .ok _ => .ok s.toRightSide

namespace Solver

/-! ## Checking -/

/-- Checks a single formula: nothing, or why it is rejected. -/
def checkFormula (formula : Value Float) : Option String :=
  match (Single.read formula).outcome with
  | .error r => some r.message
  | .ok _ => none

/-- Checks the formulas of a system: nothing, or why they are rejected. -/
def checkFormulas (formulas : Value Float) : Except Foreign (Option String) := do
  match (← Coupled.read formulas).outcome with
  | .error r => return some r.message
  | .ok _ => return none

/-! ## Solving -/

/-- Solves a single equation given as text. -/
def solveFormula (s : Solver Float Float) (formula options : Value Float) :
    Except Foreign (Outcome Float Float) :=
  s.solveRead (.ok (Single.read formula).rightSide) options

/-- Solves a system given as texts. -/
def solveFormulas (s : Solver Float (List Float)) (formulas options : Value Float) :
    Except Foreign (Outcome Float (List Float)) :=
  s.solveRead ((Coupled.read formulas).map Coupled.rightSide |>.mapError .foreign) options

end Solver

end InitialValue
