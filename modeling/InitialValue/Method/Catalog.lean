/-
  The catalogs of methods: how each is presented for single equations and for coupled systems.
-/
import InitialValue.Method.Step
import InitialValue.Value

namespace InitialValue

/-- A method with its display data. -/
structure Method where
  key : MethodKey
  name : String
  description : String
  order : Nat
  deriving Repr, DecidableEq

namespace Method

/-- The step formula of the method. -/
def step {α σ : Type} [Scalar α] [State α σ] (m : Method) : Formula α σ := m.key.step

/-- Methods for single equations. -/
def single : List Method := [
  ⟨.euler, "Euler's Method", "First-order method, simple but less accurate", 1⟩,
  ⟨.heun, "Heun's Method", "Second-order method, improved Euler with better accuracy", 2⟩,
  ⟨.rk4, "Runge-Kutta 4th Order", "Fourth-order method, highly accurate and widely used", 4⟩]

/-- Methods for coupled systems. -/
def coupled : List Method := [
  ⟨.euler, "Euler's Method (Coupled)", "First-order method for coupled systems", 1⟩,
  ⟨.heun, "Heun's Method (Coupled)", "Second-order method for coupled systems", 2⟩,
  ⟨.rk4, "Runge-Kutta 4th Order (Coupled)", "Fourth-order method for coupled systems", 4⟩]

/-- The key that a value names: a key itself, or its text. -/
def keyOf? {α : Type} : Value α → Option MethodKey
  | .key k => some k
  | .text s => MethodKey.ofText? s
  | _ => none

/-- The method that a value names in a catalog. -/
def find? {α : Type} (catalog : List Method) (v : Value α) : Option Method := do
  let k ← keyOf? v
  catalog.find? (·.key == k)

end Method

end InitialValue
