/-
  Solving: from options and a right-hand side, or a formula, to a solution.

  The pipeline checks the options, looks up the method, integrates and packs up the points; every
  failure on the way becomes a failed solution.  The record of the call moves along: validated,
  integrating, one step at a time, and converged or failed in the end.
-/
import InitialValue.Solver.Solution
import InitialValue.StepSize.Estimate

namespace InitialValue

/-- A solver: how a kind of problem is treated, and the configuration. -/
structure Solver (α σ : Type) where
  form : Form α σ
  config : Config α

namespace Solver

variable {α σ : Type} [Scalar α] [State α σ]

/-- A failed call: the record of the call ends in failure, unless it has ended before. -/
def fail (s : Solver α σ) (options : Value α) (run : Run) (warnings : List String)
    (failure : Failure) : Except Foreign (Outcome α σ) := do
  let run := if run.isFinal then run else run.attempt (.fail failure.message)
  return ⟨Solution.ofFailure failure options (← s.form.width options), run, warnings⟩

/-- The plan of an integration. -/
def plan (s : Solver α σ) (f : RightSide α) (method : Method) (settings : Settings α σ) :
    Journey.Plan α σ where
  grid := Grid.of settings.t0 settings.tEnd settings.stepSize
  step := method.step
  threshold := s.config.divergenceThreshold
  slope := s.form.slope f settings.y0
  cap := settings.maxIterations

/-- Integrates with a method and settings. -/
def integrate (s : Solver α σ) (f : RightSide α) (options : Value α) (method : Method)
    (settings : Settings α σ) (warnings : List String) (run : Run) :
    Except Foreign (Outcome α σ) :=
  match Journey.start (s.plan f method settings) settings.y0 run with
  | (run, .error halt) => s.fail options run warnings (.halted halt)
  | (run, .ok journey) =>
    match run.converge with
    | .error cause => s.fail options run warnings (.computation cause)
    | .ok run => .ok ⟨Solution.ofPoints method options journey.points, run, warnings⟩

/-- Looks up the method for checked settings and integrates. -/
def proceed (s : Solver α σ) (f : RightSide α) (options : Value α) (settings : Settings α σ)
    (warnings : List String) (run : Run) : Except Foreign (Outcome α σ) :=
  match run.validated with
  | .error cause => s.fail options run warnings (.computation cause)
  | .ok run =>
    let requested := Solution.requestedMethod options
    match Method.find? s.form.methods requested with
    | none => s.fail options run warnings (.unknownMethod requested.shown)
    | some method =>
      match run.start with
      | .error cause => s.fail options run warnings (.computation cause)
      | .ok run => s.integrate f options method settings warnings run

/-- Solves with a right-hand side. -/
def solveWith (s : Solver α σ) (f : RightSide α) (options : Value α) :
    Except Foreign (Outcome α σ) :=
  match s.form.check s.config options with
  | .error e => s.fail options .fresh [] (.computation (.foreign e))
  | .ok ⟨.error rule, warnings⟩ => s.fail options .fresh warnings (.options rule)
  | .ok ⟨.ok settings, warnings⟩ => s.proceed f options settings warnings .fresh

/-- Solves with the right-hand side that a formula was read as: reading may have failed, or have
    found the formula invalid. -/
def solveRead (s : Solver α σ) (read : Except Fault (Except String (RightSide α)))
    (options : Value α) : Except Foreign (Outcome α σ) :=
  match read with
  | .error cause => s.fail options .fresh [] (.solver cause)
  | .ok (.error reason) => s.fail options .fresh [] (.formula reason)
  | .ok (.ok f) => s.solveWith f options

/-! ## Suggesting a step size -/

/-- A field that has to be there, of options that have to be a record. -/
def required (options : Value α) (name : String) : Except Foreign (Value α) :=
  if options.isRecord then (options.field? name).elim (.error .noField) .ok
  else .error .wrongType

/-- A step size for a single equation over the domain of options. -/
def suggestSingle (root : α → α) (f : RightSide α) (options : Value α) : Except Foreign α := do
  let t0 ← (← required options "t0").toReal
  let y0 ← (← required options "y0").toReal
  let tEnd ← (Solution.optionOrZero options "t_end").toNumber
  Estimate.single root f (.real t0) (.real y0) tEnd

/-- A step size for a coupled system over the domain of options. -/
def suggestCoupled (root : α → α) (f : RightSide α) (options : Value α) : Except Foreign α := do
  let t0 ← (← required options "t0").toReal
  let y0 ← required options "y0"
  let tEnd ← (Solution.optionOrZero options "t_end").toNumber
  Estimate.coupled root f (.real t0) y0 tEnd

end Solver

end InitialValue
