/-
  Example problems: ready-made initial value problems with recommended settings.
-/
import InitialValue.Solver.FromText

namespace InitialValue

/-- A named initial value problem.  A single equation has one formula and one initial value. -/
structure Problem where
  key : String
  title : String
  description : String
  coupled : Bool
  formulas : List String
  t0 : Float
  y0 : List Float
  tEnd : Float
  stepSize : Float
  method : MethodKey

namespace Problem

/-- The circumference of the circle of radius one. -/
def fullTurn : Float := 6.283185307179586

/-- The catalog of examples, in order. -/
def catalog : List Problem := [
  { key := "exponential_growth", title := "Exponential Growth"
    description := "Unbounded growth proportional to size, y(t) = e^t"
    coupled := false, formulas := ["y"]
    t0 := 0.0, y0 := [1.0], tEnd := 2.0, stepSize := 0.1, method := .rk4 },
  { key := "logistic_growth", title := "Logistic Growth"
    description := "Growth saturating at carrying capacity 1"
    coupled := false, formulas := ["y*(1 - y)"]
    t0 := 0.0, y0 := [0.1], tEnd := 10.0, stepSize := 0.1, method := .rk4 },
  { key := "forced_decay", title := "Forced Decay"
    description := "First-order lag driven by a sinusoid"
    coupled := false, formulas := ["sin(t) - y"]
    t0 := 0.0, y0 := [0.0], tEnd := 10.0, stepSize := 0.05, method := .rk4 },
  { key := "harmonic_oscillator", title := "Simple Harmonic Oscillator"
    description := "Mass-spring system, y1 = position, y2 = velocity"
    coupled := true, formulas := ["y2", "-y1"]
    t0 := 0.0, y0 := [1.0, 0.0], tEnd := fullTurn, stepSize := 0.01, method := .rk4 },
  { key := "predator_prey", title := "Predator-Prey"
    description := "Prey y1 with predation pressure, predator y2 fed by prey"
    coupled := true, formulas := ["0.1*y1*(1 - y2/50)", "-0.05*y2*(1 - y1/25)"]
    t0 := 0.0, y0 := [40.0, 9.0], tEnd := 50.0, stepSize := 0.1, method := .rk4 },
  { key := "lorenz", title := "Lorenz System"
    description := "Chaotic convection model with σ=10, ρ=28, β=8/3"
    coupled := true, formulas := ["10*(y2 - y1)", "y1*(28 - y3) - y2", "y1*y2 - (8/3)*y3"]
    t0 := 0.0, y0 := [1.0, 1.0, 1.0], tEnd := 25.0, stepSize := 0.01, method := .rk4 }]

/-- The examples of one kind, or all of them. -/
def list : Option Bool → List Problem
  | none => catalog
  | some b => catalog.filter (·.coupled == b)

/-- The keys in order of code points. -/
def sortedKeys : List String := (catalog.map (·.key)).mergeSort (fun a b => decide (a ≤ b))

/-- What is said of an unknown key. -/
def unknownMessage (key : String) : String :=
  "Unknown example '" ++ key ++ "'. Available: [" ++
    String.intercalate ", " (sortedKeys.map Value.quote) ++ "]"

/-- The example of a key, or what is said of an unknown one. -/
def find (key : String) : Except String Problem :=
  (catalog.find? (·.key == key)).elim (.error (unknownMessage key)) .ok

/-- The recommended settings as a solver's options. -/
def options (p : Problem) : Value Float := .record [
  ("t0", .real p.t0),
  ("y0", if p.coupled then .list (p.y0.map .real) else .real (p.y0.headD 0.0)),
  ("t_end", .real p.tEnd),
  ("step_size", .real p.stepSize),
  ("method", .text p.method.text)]

/-! ## Solving -/

/-- Solves a single equation with its recommended settings. -/
def solveSingle (p : Problem) (config : Config Float) : Except Foreign (Outcome Float Float) :=
  Solver.solveFormula ⟨.single, config⟩ (.text (p.formulas.headD "")) p.options

/-- Solves a coupled system with its recommended settings. -/
def solveCoupled (p : Problem) (config : Config Float) :
    Except Foreign (Outcome Float (List Float)) :=
  Solver.solveFormulas ⟨.coupled, config⟩ (.list (p.formulas.map .text)) p.options

end Problem

end InitialValue
