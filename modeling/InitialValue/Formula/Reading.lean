/-
  Reading right-hand sides from text.

  A `Single` is what reading one formula for `dy/dt` came to, a `Coupled` what reading a list of
  formulas came to.  Both hold the names and the normal text that were found, and either equations
  or the reason why there are none.  Reading never fails; evaluating a right-hand side that was
  rejected does, always with the same reason.

  A single formula may use `t` and `y`, and has to have a finite value at one test point.  The
  formulas of a system may use `t` and the components `y1`, `y2` and so on.
-/
import InitialValue.Formula.Equation
import InitialValue.RightSide

namespace InitialValue.Formula

/-! ## Rejection -/

/-- Why a right-hand side is rejected. -/
inductive Rejection where
  | notParsed (cause : Fault)
  /-- a text where a list was expected -/
  | notAList
  | noEquations
  /-- names other than those of a single equation -/
  | unknownNames (names : List String)
  /-- a name other than those of a system -/
  | unknownName (name : String)
  | failedTest (cause : Fault)

namespace Rejection

/-- The wording of a rejection. -/
def message : Rejection → String
  | .notParsed cause => "Parse error: " ++ cause.message
  | .notAList => "Parse error: expected a list of expressions, got a single string"
  | .noEquations => "No equations provided"
  | .unknownNames names =>
    "Invalid variables found: " ++ String.intercalate ", " names ++
      ". Only 't' and 'y' are allowed."
  | .unknownName name => "Invalid variable '" ++ name ++ "'. Expected format: t, y1, y2, y3, etc."
  | .failedTest cause => "Function test failed: " ++ cause.message

/-- What evaluation refers to. -/
def refusal : Rejection → Refusal
  | .notParsed _ => .parseError
  | .notAList => .parseError
  | .noEquations => .noEquations
  | .unknownNames _ => .invalidVariables
  | .unknownName _ => .invalidVariables
  | .failedTest _ => .functionTest

end Rejection

/-! ## Single formulas -/

/-- What reading a single formula came to. -/
structure Single where
  names : List String
  normal : List Char
  outcome : Except Rejection Equation

namespace Single

/-- The names that a single formula may use. -/
def allowed : List String := ["t", "y"]

/-- The value of an equation at a time and a state. -/
def evaluateAt (e : Equation) (t y : Value Float) : Except Fault Float :=
  Except.mapError .inEvaluation do
    let (ts, tx) ← Fault.lift t.flatten
    let (ys, yx) ← Fault.lift y.flatten
    e.valueOf [⟨"t", ts, tx⟩, ⟨"y", ys, yx⟩]

/-- Evaluates an equation where time and state are one; the value has to be finite. -/
def test (e : Equation) : Except Fault Unit := do
  let x ← evaluateAt e (.real 1.0) (.real 1.0)
  if x.isFinite then return () else throw .nonFiniteTest

/-- Reads a normal text. -/
def ofNormal (n : List Char) : Single :=
  let names := namesIn n
  let unknown := names.filter fun x => !allowed.contains x
  if !unknown.isEmpty then ⟨names, n, .error (.unknownNames unknown)⟩
  else
    match Equation.compile n with
    | .error cause => ⟨[], [], .error (.notParsed cause)⟩
    | .ok e =>
      match test e with
      | .error cause => ⟨names, n, .error (.failedTest cause)⟩
      | .ok () => ⟨names, n, .ok e⟩

/-- Reads a formula. -/
def read {α : Type} (v : Value α) : Single :=
  match Equation.normalTextOf v with
  | .error cause => ⟨[], [], .error (.notParsed cause)⟩
  | .ok n => ofNormal n

/-- The value at a time and a state. -/
def evaluate (s : Single) (t y : Value Float) : Except Fault Float :=
  match s.outcome with
  | .error r => .error (.refused r.refusal)
  | .ok e => evaluateAt e t y

/-- The value as a right-hand side. -/
def toRightSide (s : Single) : RightSide Float := fun t y => do
  return .real (← s.evaluate (.real t) y)

end Single

/-! ## Systems -/

/-- What reading the formulas of a system came to. -/
structure Coupled where
  formulas : List (Value Float)
  names : List String
  normal : List (List Char)
  outcome : Except Rejection (List Equation)

namespace Coupled

/-- The component that a name stands for: a small `y` and a number without leading zeros. -/
def component? (name : String) : Option Nat :=
  match name.toList with
  | 'y' :: c :: cs =>
    if c != '0' && (c :: cs).all Char.isDigit then some (Decimal.digitsValue (c :: cs)) else none
  | _ => none

/-- May a formula of a system use the name? -/
def isAllowed (name : String) : Bool := name == "t" || (component? name).isSome

/-- The highest component that some names stand for. -/
def highest (names : List String) : Nat := (names.filterMap component?).foldl max 0

/-- Names of several texts, each once and in order. -/
def unionOfNames (normal : List (List Char)) : List String :=
  (normal.flatMap namesIn).foldr insertName []

/-- Reads the formulas in a list. -/
def ofItems (items : List (Value Float)) : Coupled :=
  if items.isEmpty then ⟨[], [], [], .error .noEquations⟩
  else
    match items.mapM Equation.normalTextOf with
    | .error cause => ⟨items, [], [], .error (.notParsed cause)⟩
    | .ok normal =>
      let names := unionOfNames normal
      match names.find? fun x => !isAllowed x with
      | some x => ⟨items, names, normal, .error (.unknownName x)⟩
      | none =>
        match normal.mapM Equation.compile with
        | .error cause => ⟨items, [], [], .error (.notParsed cause)⟩
        | .ok equations => ⟨items, names, normal, .ok equations⟩

/-- Reads the formulas of a system; what is no collection cannot be gone through. -/
def read : Value Float → Except Foreign Coupled
  | .text s => .ok ⟨[.text s], [], [], .error .notAList⟩
  | .null => .ok (ofItems [])
  | .list items => .ok (ofItems items)
  | .record fields => .ok (ofItems (fields.map fun f => .text f.1))
  | _ => .error .wrongType

/-- The number of components that the formulas refer to. -/
def components (s : Coupled) : Nat := highest s.names

/-- What is given to the equations: the time, and components by name. -/
def givenAt (timeShape : List Nat) (time : List Float) (state : List Float) : List Equation.Given :=
  ⟨"t", timeShape, time⟩ ::
    state.zipIdx.map fun (y, i) => ⟨"y" ++ toString (i + 1), [], [y]⟩

/-- The value of an equation of a system, which has to be finite. -/
def equationValue (given : List Equation.Given) (e : Equation) (number : Nat) :
    Except Fault Float :=
  Except.mapError (.inEquation number) do
    let x ← e.valueOf given
    if x.isFinite then return x else throw .nonNumeric

/-- The values of all equations at a time and a state. -/
def evaluate (s : Coupled) (t y : Value Float) : Except Fault (List Float) :=
  match s.outcome with
  | .error r => .error (.refused r.refusal)
  | .ok equations => do
    let (_, state) ← Fault.lift y.flatten
    if state.length < s.components then throw (.undefinedComponent s.components state.length)
    let (shape, time) ← Fault.lift t.flatten
    let given := givenAt shape time (state.take s.components)
    equations.zipIdx.mapM fun (e, i) => equationValue given e (i + 1)

/-- The values as a right-hand side. -/
def toRightSide (s : Coupled) : RightSide Float := fun t y => do
  return .list ((← s.evaluate (.real t) y).map .real)

end Coupled

end InitialValue.Formula
