/-
  Solutions: what a solve call hands back, whether it succeeded or not.

  A successful solution holds the points and what the options asked for; a failed one holds the
  cause and no points.  Only a coupled system whose initial state is a list of uneven nesting has
  no solution at all: the number of its ranges cannot be told.
-/
import InitialValue.Solver.Trajectory
import InitialValue.RightSide

namespace InitialValue

/-! ## Failures -/

/-- Why a solve call failed. -/
inductive Failure where
  /-- the formula is not valid, for the reason given -/
  | formula (reason : String)
  | options (rule : Violation)
  | unknownMethod (requested : String)
  | halted (halt : Halt)
  /-- an unforeseen failure while computing -/
  | computation (cause : Fault)
  /-- an unforeseen failure while reading the formula -/
  | solver (cause : Fault)
  deriving Repr, DecidableEq

/-- The wording of a halt. -/
def Halt.message : Halt → String
  | .atStep number cause =>
    "Integration failed at step " ++ toString number ++ ": " ++ cause.message
  | .capReached cap => "Maximum iterations (" ++ toString cap ++ ") reached without convergence"
  | .refusedRecord cause => "Computation error: " ++ cause.message

/-- The wording of a failure. -/
def Failure.message : Failure → String
  | .formula reason => reason
  | .options rule => rule.message
  | .unknownMethod requested => "Unknown numerical method: " ++ requested
  | .halted halt => halt.message
  | .computation cause => "Computation error: " ++ cause.message
  | .solver cause => "Solver error: " ++ cause.message

/-! ## Solutions -/

/-- What a solve call hands back. -/
structure Solution (α σ : Type) where
  success : Bool
  failure : Option Failure
  points : List (Point α σ)
  totalPoints : Nat
  /-- the display name of the method used, or the key that was asked for -/
  method : Value α
  stepSize : Value α
  domain : Value α × Value α
  /-- the least and the greatest value of every component -/
  ranges : List (α × α)

/-- A solution with the record of the call and the warnings it gave. -/
structure Outcome (α σ : Type) where
  solution : Solution α σ
  run : Run
  warnings : List String

/-! ## Single equations and coupled systems -/

/-- What single equations and coupled systems do differently. -/
structure Form (α σ : Type) where
  methods : List Method
  check : Config α → Value α → Except Foreign (Verdict α σ)
  /-- the slope that a right-hand side gives to states like a given one -/
  slope : RightSide α → σ → Slope α σ
  /-- the number of components that options ask for, without checking them -/
  width : Value α → Except Foreign Nat

namespace Form

variable {α : Type} [Scalar α]

/-- Single equations. -/
def single : Form α α where
  methods := Method.single
  check := Settings.single
  slope f _ := f.slope
  width _ := .ok 1

/-- Coupled systems. -/
def coupled : Form α (List α) where
  methods := Method.coupled
  check := Settings.coupled
  slope f y := f.vectorSlopeOf y.length
  width options := do return (← (options.option "y0").rowLength?).getD 0

end Form

/-! ## Making solutions -/

namespace Solution

variable {α σ : Type} [Scalar α] [State α σ]

/-- The method used when options do not name one. -/
def usualMethod : Value α := .text MethodKey.rk4.text

/-- The method that options ask for. -/
def requestedMethod (options : Value α) : Value α := (options.field? "method").getD usualMethod

/-- A field of options, zero when there is none. -/
def optionOrZero (options : Value α) (name : String) : Value α :=
  (options.field? name).getD (.whole 0)

/-- Both ends of the domain as the options give them. -/
def domainOf (options : Value α) : Value α × Value α :=
  (optionOrZero options "t0", optionOrZero options "t_end")

/-- Ranges widened by one more state. -/
def widen (ranges : List (α × α)) (ys : List α) : List (α × α) :=
  List.zipWith (fun r y => (Scalar.smaller r.1 y, Scalar.larger r.2 y)) ranges ys

/-- The least and the greatest value of every component over a trajectory. -/
def rangesOf (points : List (Point α σ)) : List (α × α) :=
  match points with
  | [] => []
  | p :: rest =>
    rest.foldl (fun ranges q => widen ranges (State.components q.y))
      ((State.components p.y).map fun (y : α) => (y, y))

/-- The solution of a run that reached the end. -/
def ofPoints (method : Method) (options : Value α) (points : List (Point α σ)) : Solution α σ where
  success := true
  failure := none
  points := points
  totalPoints := points.length
  method := .text method.name
  stepSize := optionOrZero options "step_size"
  domain := domainOf options
  ranges := rangesOf points

/-- The solution of a call that failed, with as many ranges as told. -/
def ofFailure (failure : Failure) (options : Value α) (width : Nat) : Solution α σ where
  success := false
  failure := some failure
  points := []
  totalPoints := 0
  method := requestedMethod options
  stepSize := optionOrZero options "step_size"
  domain := domainOf options
  ranges := List.replicate width (0.0, 0.0)

end Solution

end InitialValue
