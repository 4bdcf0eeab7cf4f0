/-
  The integration loop.

  A run goes from `t0` to `tEnd` on the grid `t0 + k · h`, where `h` is the step size with the sign
  of the direction.  The step that would end within a billionth of a step of `tEnd`, or beyond it,
  lands on `tEnd` exactly.  Every point carries the derivative there; a step is accepted when the
  new time and state are finite, the state is below the divergence threshold, and the derivative
  at the new point is finite.

  `Journey` is where a run is, `Journey.next` takes one step and `Journey.drive` as many as are
  needed, with the cap on steps as fuel.
-/
import InitialValue.Method.Catalog
import InitialValue.Solver.Run
import InitialValue.Solver.Settings

namespace InitialValue

/-- One sample of a trajectory. -/
structure Point (α σ : Type) where
  t : α
  y : σ
  slope : σ

/-- Why integration stopped before the end. -/
inductive Halt where
  /-- the step with this number failed; the initial point has number zero -/
  | atStep (number : Nat) (cause : Fault)
  | capReached (cap : Nat)
  /-- the record of the call refused a transition -/
  | refusedRecord (cause : Fault)
  deriving Repr, DecidableEq

/-! ## The grid -/

/-- The times of a run: both ends, the signed step, and how near to the end counts as there. -/
structure Grid (α : Type) where
  t0 : α
  tEnd : α
  direction : α
  h : α
  tolerance : α

namespace Grid

variable {α : Type} [Scalar α]

/-- How near to the end counts as there, relative to the step. -/
def endTolerance : α := 1e-9

/-- The grid of a run. -/
def of (t0 tEnd stepSize : α) : Grid α :=
  let direction : α := if Scalar.lt t0 tEnd then 1.0 else -1.0
  let h := direction * Scalar.magnitude stepSize
  ⟨t0, tEnd, direction, h, endTolerance * Scalar.magnitude h⟩

/-- Is there a way left to go from a time? -/
def isOpen (g : Grid α) (t : α) : Bool := Scalar.lt g.tolerance (g.direction * (g.tEnd - t))

/-- Does a step from a time land on the end? -/
def lands (g : Grid α) (t : α) : Bool :=
  Scalar.le (g.direction * (g.tEnd - t - g.h)) g.tolerance

/-- The length of a step from a time. -/
def stepFrom (g : Grid α) (t : α) : α := if g.lands t then g.tEnd - t else g.h

/-- The time after the step with a number, taken from a time. -/
def timeAfter (g : Grid α) (t : α) (number : Nat) : Except Foreign α :=
  if g.lands t then .ok g.tEnd
  else do
    let k ← (Number.whole number : Number α).toReal
    return g.t0 + k * g.h

end Grid

/-! ## Accepting a point -/

namespace Point

variable {α σ : Type} [Scalar α] [State α σ]

/-- Refuses a state that is not finite or too large. -/
def checkState (threshold : Number α) (t : α) (y : σ) : Except Fault Unit := do
  if !(Scalar.isFinite t && State.isFinite α y) then throw (.nonFiniteState (Scalar.text t))
  if threshold.lt (.real (State.largest y)) then
    match threshold.limitText with
    | .ok limit => throw (.unstable limit (Scalar.text t))
    | .error e => throw (.foreign e)

/-- The derivative at a point, refused when it is not finite. -/
def slopeAt (f : Slope α σ) (t : α) (y : σ) : Except Fault σ := do
  let k ← f t y
  if State.isFinite α k then return k else throw (.nonFiniteDerivative (Scalar.text t))

/-- The point at a time and state. -/
def at? (f : Slope α σ) (t : α) (y : σ) : Except Fault (Point α σ) := do
  return ⟨t, y, ← slopeAt f t y⟩

/-- The point after one more step, if it is accepted. -/
def next (g : Grid α) (step : Formula α σ) (threshold : Number α) (f : Slope α σ) (number : Nat)
    (p : Point α σ) : Except Fault (Point α σ) := do
  let (_, y) ← step f p.t p.y (g.stepFrom p.t)
  match g.timeAfter p.t number with
  | .error e => throw (.foreign e)
  | .ok t =>
    checkState threshold t y
    at? f t y

end Point

/-! ## The loop -/

/-- Where a run is: its last point, the points before it, nearest first, and the record of the
    call. -/
structure Journey (α σ : Type) where
  last : Point α σ
  earlier : List (Point α σ)
  steps : Nat
  run : Run

namespace Journey

variable {α σ : Type} [Scalar α] [State α σ]

/-- All points in order. -/
def points (j : Journey α σ) : List (Point α σ) := (j.last :: j.earlier).reverse

/-- What stepping needs besides the journey itself. -/
structure Plan (α σ : Type) where
  grid : Grid α
  step : Formula α σ
  threshold : Number α
  slope : Slope α σ
  cap : Nat

/-- One step further.  A failure leaves the record of the call as it was. -/
def next (plan : Plan α σ) (j : Journey α σ) : Except Halt (Journey α σ) :=
  match j.last.next plan.grid plan.step plan.threshold plan.slope (j.steps + 1) with
  | .error cause => .error (.atStep (j.steps + 1) cause)
  | .ok p =>
    match j.run.recordStep with
    | .error cause => .error (.refusedRecord cause)
    | .ok run => .ok ⟨p, j.last :: j.earlier, j.steps + 1, run⟩

/-- Steps until the end is reached, at most `n` times: the journey at its end, or where and why it
    stopped. -/
def drive (plan : Plan α σ) : Nat → Journey α σ → Run × Except Halt (Journey α σ)
  | n, j =>
    if plan.grid.isOpen j.last.t then
      match n with
      | 0 => (j.run, .error (.capReached plan.cap))
      | n + 1 =>
        match j.next plan with
        | .error halt => (j.run, .error halt)
        | .ok j => drive plan n j
    else (j.run, .ok j)

/-- A whole run from an initial state. -/
def start (plan : Plan α σ) (y0 : σ) (run : Run) : Run × Except Halt (Journey α σ) :=
  match Point.at? plan.slope plan.grid.t0 y0 with
  | .error cause => (run, .error (.atStep 0 cause))
  | .ok p => drive plan plan.cap ⟨p, [], 0, run⟩

end Journey

end InitialValue
