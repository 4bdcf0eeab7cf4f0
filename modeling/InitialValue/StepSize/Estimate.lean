/-
  Estimating a step size from the size of the derivative.

  The right-hand side is sampled at six evenly spaced times with the state held at its initial
  value.  With `m` the largest finite magnitude seen, the estimate is the square root of twice a
  tolerance over `m`, kept inside a band of step counts; when sampling fails or the derivative is
  negligible a fixed fraction of the domain is proposed instead.
-/
import InitialValue.RightSide

namespace InitialValue

namespace Estimate

variable {α : Type} [Scalar α]

/-- What distinguishes the two estimates. -/
structure Rule (α : Type) where
  /-- upper bound and divisor of the domain for the fallback -/
  most : α
  share : Int
  tolerance : α
  /-- the band: the domain divided by these -/
  finest : Int
  coarsest : Int

/-- The rule for single equations. -/
def singleRule : Rule α := ⟨0.1, 100, 1e-3, 10000, 20⟩

/-- The rule for coupled systems. -/
def coupledRule : Rule α := ⟨0.01, 1000, 1e-4, 50000, 50⟩

/-- A derivative below this counts as negligible. -/
def negligible : α := 1e-6

/-- The six sample times, evenly spaced from `t0` to `tEnd`. -/
def sampleTimes (t0 tEnd : Number α) : Except Foreign (List α) := do
  let gap ← tEnd.sub t0
  (List.range 6).mapM fun (i : Nat) => do
    let part ← match gap with
      | .whole n => (Number.whole (n * (i : Int)) : Number α).div (.whole 5)
      | .real x => do
        let k ← (Number.whole i : Number α).toReal
        (Number.real (x * k)).div (.whole 5)
    return (← t0.toReal) + part

/-- The larger of a running maximum and a magnitude, when that is finite. -/
def widen (m x : α) : α := if Scalar.isFinite x then Scalar.larger m x else m

/-- The estimate from the largest magnitude. -/
def propose (rule : Rule α) (root : α → α) (length : Number α) (m : α) :
    Except Foreign (Option α) := do
  if Scalar.lt m negligible then return none
  let s := root (2.0 * rule.tolerance / m)
  let lower ← length.div (.whole rule.finest)
  let upper ← length.div (.whole rule.coarsest)
  return some (Scalar.larger lower (Scalar.smaller upper s))

/-- What is proposed when sampling says nothing. -/
def fallback (rule : Rule α) (length : Number α) : Except Foreign α := do
  return Scalar.smaller rule.most (← length.div (.whole rule.share))

/-- The largest magnitude of a single derivative over the sample times. -/
def largestSingle (f : RightSide α) (y0 : Value α) (times : List α) : Option α :=
  times.foldlM (fun m t => do
    let v ← (f t y0).toOption
    let x ← v.toReal.toOption
    return widen m (Scalar.magnitude x)) 0.0

/-- The largest magnitude of any component of a derivative over the sample times. -/
def largestCoupled (f : RightSide α) (y0 : Value α) (times : List α) : Option α := do
  let (shape, xs) ← y0.flatten.toOption
  let state := Value.nest shape xs
  times.foldlM (fun m t => do
    let v ← (f t state).toOption
    let (_, ds) ← v.flatten.toOption
    return ds.foldl (fun m d => widen m (Scalar.magnitude d)) m) 0.0

/-- The estimate over a domain, given how the largest magnitude is found. -/
def estimate (rule : Rule α) (root : α → α) (t0 tEnd : Number α)
    (largest : List α → Option α) : Except Foreign α := do
  let length := (← tEnd.sub t0).magnitude
  let otherwise ← fallback rule length
  let found := do
    let times ← (sampleTimes t0 tEnd).toOption
    let m ← largest times
    (propose rule root length m).toOption
  return (found.getD none).getD otherwise

/-- A step size for a single equation. -/
def single (root : α → α) (f : RightSide α) (t0 : Number α) (y0 : Value α) (tEnd : Number α) :
    Except Foreign α :=
  estimate singleRule root t0 tEnd (largestSingle f y0)

/-- A step size for a coupled system. -/
def coupled (root : α → α) (f : RightSide α) (t0 : Number α) (y0 : Value α) (tEnd : Number α) :
    Except Foreign α :=
  estimate coupledRule root t0 tEnd (largestCoupled f y0)

end Estimate

end InitialValue
