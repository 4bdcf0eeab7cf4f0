/-
  Why something could not be computed.

  `Foreign` names the kinds of failure of plain arithmetic and data handling, which carry no text
  of their own; `Fault` adds the causes that this library words itself, and the places a cause can
  be reported from.  `Fault.message` is the one place where they are worded.
-/

namespace InitialValue

/-- Failures of arithmetic and of data that is not of the expected form. -/
inductive Foreign where
  /-- an operation on a value of the wrong type -/
  | wrongType
  /-- a value of the right type that cannot be used -/
  | badValue
  /-- a number outside the range of machine reals -/
  | outOfRange
  | divisionByZero
  /-- a position outside a sequence -/
  | noPosition
  /-- a record without the field asked for -/
  | noField
  /-- a formula that is not well formed, or a name that means nothing -/
  | notWellFormed
  deriving Repr, DecidableEq

/-- Why an invalid parse result refuses to be evaluated. -/
inductive Refusal where
  | parseError
  | invalidVariables
  | functionTest
  | noEquations
  deriving Repr, DecidableEq

/-- What the refusal is called in messages. -/
def Refusal.message : Refusal → String
  | .parseError => "Parse error"
  | .invalidVariables => "Invalid variables"
  | .functionTest => "Function test failed"
  | .noEquations => "No equations"

/-- Causes of failure. -/
inductive Fault where
  | foreign (kind : Foreign)
  -- formulas
  | unsafeFragment (pattern : String)
  | notText (kind : String)
  | emptyFormula
  | malformedOperator (operator : String)
  | notNumeric (kind : String)
  -- evaluation
  | refused (reason : Refusal)
  | complexResult (re im : String)
  | arrayResult (shape : List Nat)
  | nonFiniteTest
  | nonNumeric
  | undefinedComponent (index size : Nat)
  | noArguments (extremum : String)
  | inEvaluation (cause : Fault)
  | inEquation (index : Nat) (cause : Fault)
  -- integration
  | wrongCount (got expected : Nat)
  | nonFiniteState (time : String)
  | unstable (limit time : String)
  | nonFiniteDerivative (time : String)
  | illegalTransition (source target : String)
  /-- raised on purpose by a right-hand side -/
  | raised (text : String)
  deriving Repr, DecidableEq

/-- A sequence of sizes in round brackets, a single one followed by a comma. -/
def shapeText : List Nat → String
  | [n] => "(" ++ toString n ++ ",)"
  | ns => "(" ++ String.intercalate ", " (ns.map toString) ++ ")"

/-- The wording of every cause.  Foreign failures have no text of their own. -/
def Fault.message : Fault → String
  | .foreign _ => "<external>"
  | .unsafeFragment pattern => "Potentially unsafe expression detected: " ++ pattern
  | .notText kind => "Validation error: expected str, got " ++ kind
  | .emptyFormula => "expression is empty"
  | .malformedOperator op => "malformed operator '" ++ op ++ "'"
  | .notNumeric kind => "expression does not describe a numeric value (got " ++ kind ++ ")"
  | .refused reason => reason.message
  | .complexResult re im => "expression produced a complex value " ++ re ++ " " ++ im
  | .arrayResult shape => "expression produced an array of shape " ++ shapeText shape
  | .nonFiniteTest => "Function produces non-finite values"
  | .nonNumeric => "Non-numeric result"
  | .undefinedComponent index size =>
    "Evaluation failed: undefined symbol y" ++ toString index ++ " (state has " ++ toString size ++
      " components)"
  | .noArguments extremum => extremum ++ " requires at least one argument"
  | .inEvaluation cause => "Evaluation error: " ++ cause.message
  | .inEquation index cause =>
    "Evaluation failed for equation " ++ toString index ++ ": " ++ cause.message
  | .wrongCount got expected =>
    "Derivative function returned " ++ toString got ++ " values, expected " ++ toString expected
  | .nonFiniteState time => "Non-finite values encountered at t=" ++ time
  | .unstable limit time =>
    "Solution became unstable (|y| > " ++ limit ++ ") at t=" ++ time
  | .nonFiniteDerivative time => "Derivative became non-finite at t=" ++ time
  | .illegalTransition source target =>
    "Illegal solver state transition: " ++ source ++ " → " ++ target
  | .raised text => text

end InitialValue
