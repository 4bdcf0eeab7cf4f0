/-
  The three step formulas.

  A formula sees a state only through `State`: states can be added, which may fail when their
  sizes do not fit, and multiplied by a number.  A real number is a state, and so is a list of
  real numbers, a list of one adding to any other as if it were repeated.  The step size carries
  the direction; every formula answers with the next time and the next state, or with the first
  failure of the right-hand side.
-/
import InitialValue.Number.Number
import InitialValue.Method.Key

namespace InitialValue

/-! ## States -/

/-- What a step formula needs of a state. -/
class State (α σ : Type) where
  /-- The sum of two states of matching size. -/
  add : σ → σ → Except Fault σ
  /-- A multiple of a state. -/
  scale : α → σ → σ
  /-- The numbers that a state is made of. -/
  components : σ → List α

namespace State

variable {α σ : Type} [Scalar α] [State α σ]

variable (α) in
/-- Every component is finite. -/
def isFinite (y : σ) : Bool := (components y : List α).all Scalar.isFinite

/-- The largest magnitude of a component. -/
def largest (y : σ) : α :=
  (components y).foldl (fun m x => Scalar.larger m (Scalar.magnitude x)) 0.0

end State

instance {α : Type} [Scalar α] : State α α where
  add x y := .ok (x + y)
  scale a x := a * x
  components x := [x]

/-- Componentwise sum; a single component is repeated as often as the other list asks. -/
def addComponents {α : Type} [Scalar α] (xs ys : List α) : Except Fault (List α) :=
  if xs.length = ys.length then .ok (List.zipWith (· + ·) xs ys)
  else match xs, ys with
    | [x], ys => .ok (ys.map (x + ·))
    | xs, [y] => .ok (xs.map (· + y))
    | _, _ => .error (.foreign .badValue)

instance {α : Type} [Scalar α] : State α (List α) where
  add := addComponents
  scale a xs := xs.map (a * ·)
  components xs := xs

/-! ## Right-hand sides and formulas -/

/-- The derivative of a state at a time. -/
abbrev Slope (α σ : Type) := α → σ → Except Fault σ

/-- A step formula: from a slope, a time, a state and a signed step to the next time and state. -/
abbrev Formula (α σ : Type) := Slope α σ → α → σ → α → Except Fault (α × σ)

namespace MethodKey

variable {α σ : Type} [Scalar α] [State α σ]

/-- `y + a · k`. -/
def advance (y : σ) (a : α) (k : σ) : Except Fault σ := State.add α y (State.scale a k)

/-- One slope, taken at the start. -/
def eulerStep : Formula α σ := fun f t y h => do
  let k ← f t y
  return (t + h, ← advance y h k)

/-- The mean of the slopes at the start and at the predicted end. -/
def heunStep : Formula α σ := fun f t y h => do
  let k1 ← f t y
  let predicted ← advance y h k1
  let k2 ← f (t + h) predicted
  return (t + h, ← advance y (h / 2.0) (← State.add α k1 k2))

/-- Four slopes, the two in the middle counted twice. -/
def rk4Step : Formula α σ := fun f t y h => do
  let half : α := 0.5 * h
  let k1 ← f t y
  let k2 ← f (t + half) (← advance y half k1)
  let k3 ← f (t + half) (← advance y half k2)
  let k4 ← f (t + h) (← advance y h k3)
  let sum ← State.add α k1 (State.scale (2.0 : α) k2)
  let sum ← State.add α sum (State.scale (2.0 : α) k3)
  let sum ← State.add α sum k4
  return (t + h, ← advance y (h / 6.0) sum)

/-- The formula of a method. -/
def step : MethodKey → Formula α σ
  | .euler => eulerStep
  | .heun => heunStep
  | .rk4 => rk4Step

end MethodKey

end InitialValue
