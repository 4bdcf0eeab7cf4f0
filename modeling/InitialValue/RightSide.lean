/-
  Right-hand sides of differential equations, as they come: functions that nobody has checked.

  A right-hand side takes a time and a state and may fail or answer with a value of any shape.
  `slope` and `vectorSlope` are how the step formulas see it, for a single number and for a list of
  numbers; `vectorSlopeOf` also insists on the right count.  The second half holds ready-made
  right-hand sides: constants, switches, linear functions and matrices.
-/
import InitialValue.Method.Step
import InitialValue.Value

namespace InitialValue

/-- A right-hand side that nobody has checked: it may fail, or answer with anything. -/
abbrev RightSide (α : Type) := α → Value α → Except Fault (Value α)

/-- A failure of plain arithmetic or data handling as a fault. -/
def Fault.lift {β : Type} (r : Except Foreign β) : Except Fault β := r.mapError .foreign

namespace RightSide

variable {α : Type} [Scalar α]

/-! ## As a slope -/

/-- The slope of a single number: the answer has to be a number. -/
def slope (f : RightSide α) : Slope α α := fun t y => do
  let v ← f t (.real y)
  Fault.lift do (← v.toNumber).toReal

/-- The slope of a list of numbers: the numbers of the answer, whatever its shape. -/
def vectorSlope (f : RightSide α) : Slope α (List α) := fun t y => do
  let v ← f t (.list (y.map .real))
  return (← Fault.lift v.flatten).2

/-- The slope of a list of `n` numbers: the answer has to have as many. -/
def vectorSlopeOf (f : RightSide α) (n : Nat) : Slope α (List α) := fun t y => do
  let k ← f.vectorSlope t y
  if k.length = n then return k else throw (.wrongCount k.length n)

/-! ## Ready-made right-hand sides -/

/-- Always the same answer. -/
def constant (v : Value α) : RightSide α := fun _ _ => .ok v

/-- One answer before a time and another from it on, or a failure from it on. -/
def switch (time : Number α) (before : Value α) (after : Except Fault (Value α)) : RightSide α :=
  fun t _ => if (Number.real t).lt time then .ok before else after

/-- A function of every number of a state. -/
def each (f : α → Except Fault α) : Value α → Except Fault (Value α)
  | .list items => do
    let xs ← items.mapM fun v => do
      f (← Fault.lift do (← v.toNumber).toReal)
    return .list (xs.map .real)
  | v => do return .real (← f (← Fault.lift do (← v.toNumber).toReal))

/-- `a · t + b · y + c`, for every number of the state. -/
def linear (a b c : α) : RightSide α := fun t => each fun y => .ok (a * t + b * y + c)

/-- One row of a matrix times a state, summed from left to right.  The state has to be as long as
    the row. -/
def rowTimes (s : α) : List α → List (Value α) → Except Fault α
  | [], _ => .ok s
  | _ :: _, [] => .error (.foreign .noPosition)
  | a :: row, y :: ys => do
    let x ← Fault.lift do (← y.toNumber).toReal
    rowTimes (s + a * x) row ys

/-- A matrix times a state. -/
def matrix (rows : List (List α)) : RightSide α := fun _ y =>
  match y with
  | .list items => do
    let xs ← rows.mapM fun row => rowTimes 0.0 row items
    return .list (xs.map .real)
  | _ =>
    if rows.all List.isEmpty then .ok (.list (rows.map fun _ => .real 0.0))
    else .error (.foreign .wrongType)

end RightSide

end InitialValue
