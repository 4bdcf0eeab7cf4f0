/-
  The closed set of methods, by key.

  A key is looked up by its text without regard to letter case or surrounding blanks.
-/
import InitialValue.Text.Blank

namespace InitialValue

/-- The methods there are. -/
inductive MethodKey where
  | euler
  | heun
  | rk4
  deriving Repr, DecidableEq

namespace MethodKey

/-- All keys, in catalog order. -/
def all : List MethodKey := [.euler, .heun, .rk4]

/-- The key as text. -/
def text : MethodKey → String
  | .euler => "euler"
  | .heun => "heun"
  | .rk4 => "rk4"

/-- The key in capitals. -/
def capitals : MethodKey → String
  | .euler => "EULER"
  | .heun => "HEUN"
  | .rk4 => "RK4"

/-- A letter in lower case; besides the ASCII capitals, the sign for the kelvin is a small `k`. -/
def lower (c : Char) : Char := if c.toNat = 0x212A then 'k' else c.toLower

/-- The key that a text names. -/
def ofText? (s : String) : Option MethodKey :=
  let t := String.ofList ((Text.trim s.toList).map lower)
  all.find? fun k => k.text == t

theorem ofText?_text (k : MethodKey) : ofText? k.text = some k := by cases k <;> decide +kernel

end MethodKey

end InitialValue
