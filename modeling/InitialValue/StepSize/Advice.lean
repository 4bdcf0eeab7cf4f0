/-
  Advice on a proposed step size.

  A single equation is judged by the number of steps that the proposal implies over the domain, a
  coupled system by the proposal relative to the length of the domain.  Advice may come with a
  better step and with a warning; only `valid := false` means that the step should be refused.
-/
import InitialValue.Number.Number

namespace InitialValue

/-- The outcome of judging a step size. -/
structure Advice (α : Type) where
  valid : Bool
  suggested : Option α
  warning : Option String

namespace Advice

variable {α : Type} [Scalar α]

/-- Nothing to say. -/
def silent : Advice α := ⟨true, none, none⟩

/-! ## Bounds on the number of steps of a single equation -/

/-- Fewer steps than this are too few. -/
def fewestSteps : Int := 10
/-- More steps than this are too many. -/
def mostSteps : Int := 100000
/-- More steps than this deserve a warning. -/
def manySteps : Int := 50000

/-- The step is too large: twenty steps are suggested. -/
def tooLarge (length : Number α) : Except Foreign (Advice α) := do
  let s ← length.div (.whole 20)
  return ⟨false, some s, some ("Step size too large. Consider using h ≤ " ++ Scalar.padded s ++
    " for better accuracy.")⟩

/-- The step is too small: ten thousand steps are suggested. -/
def tooSmall (length : Number α) : Except Foreign (Advice α) := do
  let s ← length.div (.whole 10000)
  return ⟨false, some s, some ("Step size too small. Consider using h ≥ " ++ Scalar.padded s ++
    " for faster computation.")⟩

/-- A step for a single equation, judged by the number of steps it implies.  A zero step implies
    infinitely many, unless the domain is empty: then nothing can be said. -/
def single (step t0 tEnd : Number α) : Except Foreign (Advice α) := do
  let length := (← tEnd.sub t0).magnitude
  if step.same (.whole 0) then
    if (Number.whole 0).lt length then tooSmall length else return silent
  else
    let count ← length.div step
    if Scalar.compareInt? count fewestSteps == some .lt then tooLarge length
    else if Scalar.compareInt? count mostSteps == some .gt then tooSmall length
    else if Scalar.compareInt? count manySteps == some .gt then
      return ⟨true, none, some ("Large number of steps (" ++
        toString (Scalar.floor (count + 0.5)) ++ "). Computation may take some time.")⟩
    else return silent

/-! ## Coupled systems -/

/-- A step for a coupled system, judged relative to the length of the domain. -/
def coupled (step t0 tEnd : Number α) : Except Foreign (Advice α) := do
  let length := (← tEnd.sub t0).magnitude
  if step.le (.whole 0) then
    let s ← length.div (.whole 100)
    return ⟨false, some (Scalar.smaller 0.1 s), some "Step size must be positive"⟩
  else if length.lt step then
    return ⟨false, some (← length.div (.whole 10)), some "Step size larger than domain range"⟩
  else if (Number.real (← length.div (.whole 10))).lt step then
    return ⟨true, some (← length.div (.whole 50)),
      some "Step size might be too large for coupled systems, consider smaller values"⟩
  else if step.lt (.real (← length.div (.whole 100000))) then
    return ⟨true, some (← length.div (.whole 1000)),
      some "Very small step size may lead to slow computation"⟩
  else return silent

end Advice

end InitialValue
