/-
  The settings of one run, and checking the options that give them.

  Options are data that nobody has checked.  The rules are tried in a fixed order and the first
  that is broken is reported; `Settings` is what options amount to when none is.  The last rule asks
  for advice on the step size, which may refuse it or add a warning, depending on the policies of
  the configuration.

  Reading a whole number that is too large for a real is a failure of its own, not a broken rule.
-/
import InitialValue.Solver.Config
import InitialValue.StepSize.Advice

namespace InitialValue

/-! ## Rules -/

/-- A rule that options break. -/
inductive Violation where
  | parametersNotFinite
  | domainNotFinite
  | noInitialState
  | initialStateNotFinite
  | stepNotPositive
  | stepTooLarge
  | emptyDomain
  | domainTooLong (limit : String)
  | initialValueTooLarge (limit : String)
  | initialStateTooLarge (limit : String)
  | badIterationCap
  | advised (text : String)
  deriving Repr, DecidableEq

/-- The wording of a broken rule. -/
def Violation.message : Violation → String
  | .parametersNotFinite => "All parameters must be finite numbers"
  | .domainNotFinite => "t0, t_end, and step_size must be finite numbers"
  | .noInitialState => "y0 must be a non-empty array"
  | .initialStateNotFinite => "All initial y values must be finite numbers"
  | .stepNotPositive => "Step size must be positive"
  | .stepTooLarge => "Step size cannot be larger than the integration domain"
  | .emptyDomain => "Start and end t values cannot be equal"
  | .domainTooLong limit => "Integration domain too large (|t_end - t0| > " ++ limit ++ ")"
  | .initialValueTooLarge limit => "Initial y value too large (|y0| > " ++ limit ++ ")"
  | .initialStateTooLarge limit => "Initial y values too large (|y0[i]| > " ++ limit ++ ")"
  | .badIterationCap => "max_iterations must be a positive integer"
  | .advised text => text

/-! ## Parameters -/

/-- A finite number as it was given, and its real value. -/
structure Parameter (α : Type) where
  given : Number α
  real : α

namespace Value

variable {α : Type} [Scalar α]

/-- Is the value a finite number?  A whole number that is too large for a real cannot be asked. -/
def isFiniteNumber (v : Value α) : Except Foreign Bool :=
  match v.number? with
  | some n => n.isFinite
  | none => .ok false

/-- The value as a parameter, if it is a finite number. -/
def parameter? (v : Value α) : Except Foreign (Option (Parameter α)) := do
  match v.number? with
  | none => return none
  | some n =>
    let x ← n.toReal
    return if Scalar.isFinite x then some ⟨n, x⟩ else none

/-- All values as parameters, if they all are finite numbers; the first that is not decides. -/
def parameters? : List (Value α) → Except Foreign (Option (List (Parameter α)))
  | [] => .ok (some [])
  | v :: rest => do
    let some p ← v.parameter? | return none
    let some ps ← parameters? rest | return none
    return some (p :: ps)

/-- A field of options, null when there is none. -/
def option (options : Value α) (name : String) : Value α := (options.field? name).getD .null

/-- Is the value a record? -/
def isRecord : Value α → Bool
  | .record _ => true
  | _ => false

end Value

/-! ## Settings -/

/-- What a run needs to know; `σ` is the type of states. -/
structure Settings (α σ : Type) where
  t0 : α
  tEnd : α
  stepSize : α
  y0 : σ
  maxIterations : Nat

/-- The outcome of checking options: the settings or the first broken rule, and the warnings. -/
structure Verdict (α σ : Type) where
  result : Except Violation (Settings α σ)
  warnings : List String

namespace Settings

variable {α σ : Type} [Scalar α]

/-- How many steps a run may take when the options do not say. -/
def usualCap : Nat := 1000000

/-- The rules on step size and domain. -/
def checkBounds (c : Config α) (t0 tEnd step : Number α) :
    Except Foreign (Option Violation) := do
  let length := (← tEnd.sub t0).magnitude
  if step.le (.whole 0) then return some .stepNotPositive
  if length.lt step then return some .stepTooLarge
  if t0.same tEnd then return some .emptyDomain
  if c.maxDomainLength.lt length then
    return some (.domainTooLong (← c.maxDomainLength.limitText))
  return none

/-- The cap on steps that the options give. -/
def iterationCap? (options : Value α) : Option Nat :=
  match options.field? "max_iterations" with
  | none => some usualCap
  | some (.whole n) => if 0 < n then some n.toNat else none
  | some _ => none

/-- Takes advice by the policies: a refusal, or the warnings to pass on. -/
def takeAdvice (c : Config α) (advice : Advice α) : Except Violation (List String) :=
  if !advice.valid && c.strictStepSize.holds then
    .error (.advised (advice.warning.getD "Invalid step size"))
  else match advice.warning with
    | some text => .ok (if c.warnOnStepSize.holds then ["Step size advisory: " ++ text] else [])
    | none => .ok []

/-- The rules from the bounds on, which single equations and coupled systems share: `tooLarge?`
    judges the initial state, `judge` the step size. -/
def settle (c : Config α) (options : Value α) (t0 tEnd step : Parameter α) (y0 : σ)
    (tooLarge? : Except Foreign (Option Violation))
    (judge : Number α → Number α → Number α → Except Foreign (Advice α)) :
    Except Foreign (Verdict α σ) := do
  if let some v ← checkBounds c t0.given tEnd.given step.given then return ⟨.error v, []⟩
  if let some v ← tooLarge? then return ⟨.error v, []⟩
  match iterationCap? options with
  | none => return ⟨.error .badIterationCap, []⟩
  | some cap =>
    match takeAdvice c (← judge step.given t0.given tEnd.given) with
    | .error v => return ⟨.error v, []⟩
    | .ok warnings => return ⟨.ok ⟨t0.real, tEnd.real, step.real, y0, cap⟩, warnings⟩

/-- Checks the options of a single equation. -/
def single (c : Config α) (options : Value α) : Except Foreign (Verdict α α) := do
  if !options.isRecord then return ⟨.error .parametersNotFinite, []⟩
  match ← Value.parameters? (["t0", "y0", "t_end", "step_size"].map options.option) with
  | some [t0, y0, tEnd, step] =>
    let limit := c.maxInitialMagnitude
    settle c options t0 tEnd step y0.real
      (if limit.lt y0.given.magnitude then do
        return some (.initialValueTooLarge (← limit.limitText))
      else return none)
      Advice.single
  | _ => return ⟨.error .parametersNotFinite, []⟩

/-- The items of a list whose items are no lists; none for anything else. -/
def row? (v : Value α) : Except Foreign (Option (List (Value α))) := do
  match v with
  | .list items => return (← v.rowLength?).map fun _ => items
  | _ => return none

/-- Checks the options of a coupled system. -/
def coupled (c : Config α) (options : Value α) : Except Foreign (Verdict α (List α)) := do
  if !options.isRecord then return ⟨.error .domainNotFinite, []⟩
  match ← Value.parameters? (["t0", "t_end", "step_size"].map options.option) with
  | some [t0, tEnd, step] =>
    match ← row? (options.option "y0") with
    | none => return ⟨.error .noInitialState, []⟩
    | some [] => return ⟨.error .noInitialState, []⟩
    | some items =>
      match ← Value.parameters? items with
      | none => return ⟨.error .initialStateNotFinite, []⟩
      | some y0 =>
        let limit := c.maxInitialMagnitude
        settle c options t0 tEnd step (y0.map (·.real))
          (if y0.any fun p => limit.lt p.given.magnitude then do
            return some (.initialStateTooLarge (← limit.limitText))
          else return none)
          Advice.coupled
  | _ => return ⟨.error .domainNotFinite, []⟩

end Settings

end InitialValue
