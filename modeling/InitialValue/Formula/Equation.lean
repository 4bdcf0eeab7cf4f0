/-
  Equations: formulas ready to be evaluated.

  An `Equation` is a normal text, the names in it, and the calculation of the term it describes,
  over those names and no others.  `Equation.ofText` checks and normalises a text first, and
  `Equation.compile` makes an equation of a normal text.

  Values given to an equation may be arrays, of which only those matter whose names the calculation
  uses; the result has to be a single real number.
-/
import InitialValue.Formula.Calculation
import InitialValue.Formula.Meaning
import InitialValue.Formula.Normal
import InitialValue.Value

namespace InitialValue.Formula

open InitialValue.Symbolic

/-- A formula ready to be evaluated. -/
structure Equation where
  /-- the names in the formula that are neither functions nor constants, in order -/
  names : List String
  calculation : Calculation (Fin names.length)

/-- The place of a name in a list, up to a length. -/
def placeOf? (name : String) : (names : List String) → Option (Fin names.length)
  | [] => none
  | x :: xs => if x == name then some ⟨0, Nat.zero_lt_succ _⟩ else (placeOf? name xs).map Fin.succ

namespace Equation

/-! ## Making equations -/

/-- The normal text of a formula, which must not be empty. -/
def normalText (s : String) : Except Fault (List Char) := do
  let cs := s.toList
  checkSafety cs
  let n ← normalize cs
  if n.isEmpty then throw .emptyFormula
  return n

/-- The normal text of a formula given as data. -/
def normalTextOf {α : Type} : Value α → Except Fault (List Char)
  | .text s => normalText s
  | v => .error (.notText v.kind)

/-- A result, or the failure of a formula that is not well formed. -/
def orMalformed {β : Type} (r : Option β) : Except Fault β :=
  r.elim (.error (.foreign .notWellFormed)) .ok

/-- The equation of a normal text. -/
def compile (n : List Char) : Except Fault Equation := do
  let names := namesIn n
  let expr ← orMalformed (Expr.ofText? n)
  let meaning ← orMalformed (expr.meaning? fun name => placeOf? name names)
  let term ← meaning.toTerm
  return ⟨names, ← orMalformed (Calculation.ofTerm? term)⟩

/-! ## Evaluation -/

/-- The quantity that an equation computes from values of names. -/
def quantity (e : Equation) (values : Calculation.Values) : Except Fault Quantity :=
  e.calculation.run (fun i => (values (e.names.get i)).getD 0.0) values

/-- The real number that an equation computes from values of names. -/
def value (e : Equation) (values : Calculation.Values) : Except Fault Float := do
  (← e.quantity values).result

/-- Does the calculation use a name? -/
def uses (e : Equation) (name : String) : Bool :=
  e.calculation.uses (fun i => e.names.get i == name) (· == name)

/-! ## Arrays -/

/-- A value given to an equation: an array, of which a single number has the empty shape. -/
structure Given where
  name : String
  shape : List Nat
  entries : List Float

/-- The common shape of two arrays of the same number of axes: along every axis the sizes agree, or
    one of them is one. -/
def joinSizes : List Nat → List Nat → Except Foreign (List Nat)
  | m :: ms, n :: ns =>
    if m == n || n == 1 then do return m :: (← joinSizes ms ns)
    else if m == 1 then do return n :: (← joinSizes ms ns)
    else .error .badValue
  | [], ns => .ok ns
  | ms, [] => .ok ms

/-- The common shape of two arrays, the last axes matched. -/
def joinShapes (a b : List Nat) : Except Foreign (List Nat) := do
  return (← joinSizes a.reverse b.reverse).reverse

/-- The number of entries of a shape. -/
def sizeOf (shape : List Nat) : Nat := shape.foldl (· * ·) 1

/-- Values of names from what is given; any one entry stands for an array. -/
def valuesOf (given : List Given) : Calculation.Values := fun name =>
  (given.find? fun g => g.name == name).map fun g => g.entries.headD 1.0

/-- The real number that an equation computes from what is given. -/
def valueOf (e : Equation) (given : List Given) : Except Fault Float := do
  let used := given.filter fun g => !g.shape.isEmpty && e.uses g.name
  let shape ← (used.foldlM (fun s g => joinShapes s g.shape) []).mapError .foreign
  let q ← e.quantity (valuesOf given)
  if sizeOf shape = 1 then q.result else throw (.arrayResult shape)

end Equation

end InitialValue.Formula
