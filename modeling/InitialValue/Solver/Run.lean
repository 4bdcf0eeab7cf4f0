/-
  The life of one solve call.

  A call starts unvalidated, becomes validated, then integrates, one transition per accepted step,
  and ends converged or failed; it may fail from every state that is not final.  `Phase.allows` is
  the whole table.  A refused transition leaves the record as it was.
-/
import InitialValue.Fault

namespace InitialValue

/-- Where a solve call is. -/
inductive Phase where
  | unvalidated
  | validated
  | integrating
  | converged
  | failed
  deriving Repr, DecidableEq

namespace Phase

/-- The name of a phase. -/
def text : Phase → String
  | .unvalidated => "unvalidated"
  | .validated => "validated"
  | .integrating => "integrating"
  | .converged => "converged"
  | .failed => "failed"

/-- The name of a phase in capitals. -/
def capitals : Phase → String
  | .unvalidated => "UNVALIDATED"
  | .validated => "VALIDATED"
  | .integrating => "INTEGRATING"
  | .converged => "CONVERGED"
  | .failed => "FAILED"

/-- The transitions there are. -/
def allows : Phase → Phase → Bool
  | .unvalidated, .validated => true
  | .unvalidated, .failed => true
  | .validated, .integrating => true
  | .validated, .failed => true
  | .integrating, .integrating => true
  | .integrating, .converged => true
  | .integrating, .failed => true
  | _, _ => false

/-- A final phase. -/
def isFinal : Phase → Bool
  | .converged => true
  | .failed => true
  | _ => false

end Phase

/-- The record of one solve call. -/
structure Run where
  phase : Phase := .unvalidated
  steps : Nat := 0
  error : Option String := none
  deriving Repr, DecidableEq

namespace Run

/-- A call that has just begun. -/
def fresh : Run := {}

/-- The call is over. -/
def isFinal (r : Run) : Bool := r.phase.isFinal

/-- Moves on to a phase, if the table allows it. -/
def move (r : Run) (p : Phase) : Except Fault Run :=
  if r.phase.allows p then .ok { r with phase := p }
  else .error (.illegalTransition r.phase.capitals p.capitals)

/-- The options passed all checks. -/
def validated (r : Run) : Except Fault Run := r.move .validated

/-- Stepping begins. -/
def start (r : Run) : Except Fault Run := r.move .integrating

/-- One more step was accepted. -/
def recordStep (r : Run) : Except Fault Run := do
  let r ← r.move .integrating
  return { r with steps := r.steps + 1 }

/-- The end of the domain was reached. -/
def converge (r : Run) : Except Fault Run := r.move .converged

/-- The call failed, with this text. -/
def fail (r : Run) (error : String) : Except Fault Run := do
  let r ← r.move .failed
  return { r with error := some error }

/-! ## Calls on a record -/

/-- A call on a record. -/
inductive Call where
  | validated
  | start
  | recordStep
  | converge
  | fail (error : String)
  deriving Repr, DecidableEq

/-- Carries out a call. -/
def call (r : Run) : Call → Except Fault Run
  | .validated => r.validated
  | .start => r.start
  | .recordStep => r.recordStep
  | .converge => r.converge
  | .fail error => r.fail error

/-- Carries out a call, or keeps the record when it is refused. -/
def attempt (r : Run) (c : Call) : Run := (r.call c).toOption.getD r

end Run

end InitialValue
