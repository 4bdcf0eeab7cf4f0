/-
  Calculations: symbolic terms as machine arithmetic.

  A `Calculation` says which operations of machine arithmetic are done in which order.
  `Calculation.ofTerm?` writes a term that way: sums and products from left to right in the written
  order of their parts, factors with a negative exponent gathered in a denominator, the sign in
  front, square roots as such.  A term in which the infinity without direction occurs, or a whole
  number too long to be written, has no calculation.

  `Calculation.run` computes the quantity for given values of the names.
-/
import InitialValue.Number.Quantity
import InitialValue.Symbolic.Key
import InitialValue.Text.Identifier

namespace InitialValue.Formula

open InitialValue.Symbolic

/-- Machine arithmetic over symbols from `ν`. -/
inductive Calculation (ν : Type) where
  | whole (n : Int)
  | real (x : Float)
  | unit
  | symbol (v : ν)
  /-- a name that is no symbol; it may have a value all the same -/
  | stranger (name : String)
  | neg (x : Calculation ν)
  | add (x y : Calculation ν)
  | mul (x y : Calculation ν)
  | div (x y : Calculation ν)
  | power (x y : Calculation ν)
  | root (x : Calculation ν)
  | call (f : Fn) (args : List (Calculation ν))
  deriving Inhabited

/-! ## Numbers as they are written -/

/-- The longest whole number that can be written has this many figures. -/
def longestWhole : Nat := 4300

/-- Can a whole number be written? -/
def isWritable (n : Int) : Bool := n.natAbs < Nat.pow 10 longestWhole

/-- A binary real as it is written: with as many decimal figures as its precision is good for. -/
def writtenReal (x : Rounded) : Float :=
  let infinite : Float := if x.isNegative then -1.0 / 0.0 else 1.0 / 0.0
  if x.isZero then 0.0
  else if 1100 < x.magnitude then infinite
  else if x.magnitude < -1200 then (if x.isNegative then -0.0 else 0.0)
  else
    let n := Rounded.figuresFor x.prec
    let q := x.toRat
    let (d, e) := Decimal.figuresBy Decimal.nearestUp n q.num.natAbs q.den
    let (a, b) := Decimal.scaled d 1 (e - n + 1)
    Binary.nearest x.isNegative a b

namespace Calculation

variable {ν : Type}

/-- A whole number. -/
def ofInt? (n : Int) : Option (Calculation ν) := if isWritable n then some (.whole n) else none

/-- A number: a quotient is a division of whole numbers. -/
def ofNum? : Coefficient → Option (Calculation ν)
  | .rat q =>
    if q.den = 1 then ofInt? q.num else do return .div (← ofInt? q.num) (← ofInt? q.den)
  | .real x => some (.real (writtenReal x))

/-- A constant. -/
def ofConstant? : Constant → Option (Calculation ν)
  | .pi => some (.real 3.141592653589793)
  | .euler => some (.real 2.718281828459045)
  | .unit => some .unit
  | .infinity => some (.real (1.0 / 0.0))
  | .minusInfinity => some (.real (-1.0 / 0.0))
  | .undefined => some (.real (0.0 / 0.0))
  | .pole => none

/-! ## Writing terms -/

/-- A term written out: as it stands alone, and as a factor of a denominator if it is one. -/
structure Written (ν : Type) where
  alone : Calculation ν
  under : Option (Calculation ν)

/-- Operands joined from left to right. -/
def chain (join : Calculation ν → Calculation ν → Calculation ν) (empty : Calculation ν) :
    List (Calculation ν) → Calculation ν
  | [] => empty
  | x :: rest => rest.foldl join x

/-- A power with a given exponent that is not negative. -/
def raised? (base : Calculation ν) (q : Rat) : Option (Calculation ν) :=
  if q = 1 then some base
  else if q = 1 / 2 then some (.root base)
  else (ofNum? (.rat q)).map (.power base)

/-- A power.  Alone, a negative whole exponent is written as a real. -/
def ofPower? (base exponent : Calculation ν) (e : Term ν) : Option (Written ν) :=
  match e with
  | .num (.rat q) =>
    if q < 0 then do
      let under ← raised? base (-q)
      let alone := if q.den = 1 then .power base (.real (Binary.ofRat q))
        else if q = -1 / 2 then .div (.whole 1) (.root base)
        else .power base exponent
      return ⟨alone, some under⟩
    else if q = 1 / 2 then some ⟨.root base, none⟩
    else some ⟨.power base exponent, none⟩
  | _ => some ⟨.power base exponent, none⟩

/-- A product of a sign and written factors. -/
def ofFactors (negative : Bool) (fs : List (Written ν)) : Calculation ν :=
  let top := (fs.filter fun f => f.under.isNone).map (·.alone)
  let bottom := fs.filterMap (·.under)
  let top := if top.isEmpty then [.whole 1] else top
  let top := match negative, top with
    | true, x :: rest => .neg x :: rest
    | _, top => top
  let numerator := chain .mul (.whole 1) top
  if bottom.isEmpty then numerator else .div numerator (chain .mul (.whole 1) bottom)

/-- Terms with something attached, in the written order of a sum. -/
def inSumOrder [Ord ν] {β : Type} (items : List (Term ν × β)) : List β :=
  (Monomial.inOrder (items.map fun x => (x.1.monomial, x.2))).map (·.2)

/-- Factors with something attached, in the written order of a product. -/
def inProductOrder [Ord ν] {β : Type} (items : List (Term ν × β)) : List β :=
  ((items.map fun x => (x.1.key, x.2)).mergeSort fun a b => a.1.le b.1).map (·.2)

/-- The sign of a product, and the factors without it. -/
def splitSign {β : Type} : List (Term ν × β) → Bool × Option Coefficient × List (Term ν × β)
  | (.num n, _) :: rest => if n.isNegative then (true, some n.neg, rest) else (false, some n, rest)
  | fs => (false, none, fs)

/-- A product of factors. -/
def ofProduct? [Ord ν] (fs : List (Term ν × Written ν)) : Option (Written ν) := do
  let (negative, n?, rest) := splitSign fs
  let rest := inProductOrder rest
  match n? with
  | none => return ⟨ofFactors negative rest, none⟩
  | some n =>
    if n == .one then return ⟨ofFactors negative rest, none⟩
    else return ⟨ofFactors negative (⟨← ofNum? n, none⟩ :: rest), none⟩

mutual

/-- A term written out. -/
def write? [Ord ν] : Term ν → Option (Written ν)
  | .num n => do return ⟨← ofNum? n, none⟩
  | .const c => do return ⟨← ofConstant? c, none⟩
  | .symbol v => some ⟨.symbol v, none⟩
  | .stranger s => some ⟨.stranger s, none⟩
  | .sum ts => do
    let ws ← writeAll? ts
    return ⟨chain .add (.whole 0) ((inSumOrder (ts.zip ws)).map (·.alone)), none⟩
  | .product fs => do ofProduct? (fs.zip (← writeAll? fs))
  | .power b e => do
    let base ← write? b
    let exponent ← write? e
    ofPower? base.alone exponent.alone e
  | .apply f args => do return ⟨.call f ((← writeAll? args).map (·.alone)), none⟩

/-- Terms written out. -/
def writeAll? [Ord ν] : List (Term ν) → Option (List (Written ν))
  | [] => some []
  | t :: ts => do return (← write? t) :: (← writeAll? ts)

end

/-- The calculation of a term. -/
def ofTerm? [Ord ν] (t : Term ν) : Option (Calculation ν) := (write? t).map (·.alone)

/-! ## Running -/

/-- Values of names. -/
abbrev Values := String → Option Float

/-- Functions of one argument, on machine reals and on complex numbers. -/
def callOne? : Fn → Option (Quantity → Except Foreign Quantity)
  | .sin => some (Quantity.apply Float.sin (some Complex.sin))
  | .cos => some (Quantity.apply Float.cos (some Complex.cos))
  | .tan => some (Quantity.apply Float.tan (some Complex.tan))
  | .sec => some fun a => do Quantity.reciprocal (← a.apply Float.cos (some Complex.cos))
  | .csc => some fun a => do Quantity.reciprocal (← a.apply Float.sin (some Complex.sin))
  | .cot => some fun a => do Quantity.reciprocal (← a.apply Float.tan (some Complex.tan))
  | .asin => some (Quantity.apply Float.asin (some Complex.asin))
  | .acos => some (Quantity.apply Float.acos (some Complex.acos))
  | .atan => some (Quantity.apply Float.atan (some Complex.atan))
  | .sinh => some (Quantity.apply Float.sinh (some Complex.sinh))
  | .cosh => some (Quantity.apply Float.cosh (some Complex.cosh))
  | .tanh => some (Quantity.apply Float.tanh (some Complex.tanh))
  | .asinh => some (Quantity.apply Float.asinh (some Complex.asinh))
  | .atanh => some (Quantity.apply Float.atanh (some Complex.atanh))
  | .exp => some (Quantity.apply Float.exp (some Complex.exp))
  | .log => some (Quantity.apply Float.log (some Complex.log))
  | .abs => some Quantity.abs
  | .sign => some (Quantity.apply Quantity.signOf (some Complex.sign))
  | .floor => some (Quantity.apply Float.floor none)
  | .ceil => some (Quantity.apply Float.ceil none)
  | .cbrt => some (Quantity.apply Float.cbrt none)
  | .round => some Quantity.round
  | _ => none

/-- The square root. -/
def rootOf : Quantity → Except Foreign Quantity := Quantity.apply Float.sqrt (some Complex.sqrt)

/-- Functions that a name of other letters may stand for once its letters are made plain. -/
def plainFunctions : List (String × Fn) :=
  [("sin", .sin), ("cos", .cos), ("tan", .tan), ("sec", .sec), ("csc", .csc), ("cot", .cot),
   ("sinh", .sinh), ("cosh", .cosh), ("tanh", .tanh), ("exp", .exp), ("log", .log), ("abs", .abs),
   ("sign", .sign), ("floor", .floor), ("ceil", .ceil), ("cbrt", .cbrt), ("round", .round)]

/-- A call.  What `random` draws is not determined; any value from zero to below one will do. -/
def callWith (f : Fn) (args : List Quantity) : Except Fault Quantity :=
  match f, args with
  | .max, args => Quantity.foldExtremum Quantity.max "Max" args
  | .min, args => Quantity.foldExtremum Quantity.min "Min" args
  | .random, [] => .ok (.strict 0.5)
  | .mod, [x, y] => (Quantity.remainder x y).mapError .foreign
  | .atan2, [.complex _ _, _] => .error (.foreign .wrongType)
  | .atan2, [_, .complex _ _] => .error (.foreign .wrongType)
  | .atan2, [y, x] => do
    let y ← y.toFloat.mapError .foreign
    let x ← x.toFloat.mapError .foreign
    return .lenient (Float.atan2 y x)
  | .unknown name, [x] =>
    let plain := Text.plainName name
    if plain == "sqrt" then (rootOf x).mapError .foreign
    else
      match ((plainFunctions.find? (·.1 == plain)).map (·.2)).bind callOne? with
      | some g => (g x).mapError .foreign
      | none => .error (.foreign .notWellFormed)
  | f, [x] =>
    match callOne? f with
    | some g => (g x).mapError .foreign
    | none => .error (.foreign .wrongType)
  | _, _ => .error (.foreign .wrongType)

/-- Functions that plain machine arithmetic lacks, by the names they are written with. -/
def addedFunctions : List (String × Fn) :=
  [("sec", .sec), ("csc", .csc), ("cot", .cot), ("cbrt", .cbrt), ("round", .round), ("Abs", .abs),
   ("Min", .min), ("Max", .max), ("random", .random)]

/-- One of the added functions, called by name with machine reals. -/
def callAdded (name : String) (args : List Float) : Except Fault Float :=
  match addedFunctions.find? (·.1 == name) with
  | none => .error (.foreign .noField)
  | some f => do (← callWith f.2 (args.map .lenient)).result

/-- The value of a name that is no symbol: that of the name its letters amount to. -/
def strangerValue (values : Values) (name : String) : Except Fault Quantity :=
  let plain := Text.plainName name
  match values plain with
  | some x => .ok (.lenient x)
  | none =>
    if plain == "pi" then .ok (.strict 3.141592653589793)
    else if plain == "e" then .ok (.strict 2.718281828459045)
    else .error (.foreign .notWellFormed)

/-- An operation of plain arithmetic on computed operands. -/
def operate (f : Quantity → Quantity → Except Foreign Quantity) (a b : Except Fault Quantity) :
    Except Fault Quantity := do
  let x ← a
  let y ← b
  (f x y).mapError .foreign

mutual

/-- The quantity that a calculation computes, given the values of symbols and of other names. -/
def run (symbols : ν → Float) (values : Values) : Calculation ν → Except Fault Quantity
  | .whole n => .ok (.whole n)
  | .real x => .ok (.strict x)
  | .unit => .ok (.complex .unit false)
  | .symbol v => .ok (.lenient (symbols v))
  | .stranger s => strangerValue values s
  | .neg x => (run symbols values x).map Quantity.neg
  | .add x y => operate Quantity.add (run symbols values x) (run symbols values y)
  | .mul x y => operate Quantity.mul (run symbols values x) (run symbols values y)
  | .div x y => operate Quantity.div (run symbols values x) (run symbols values y)
  | .power x y => operate Quantity.power (run symbols values x) (run symbols values y)
  | .root x => do (rootOf (← run symbols values x)).mapError .foreign
  | .call f args => do callWith f (← runAll symbols values args)

/-- The quantities that calculations compute. -/
def runAll (symbols : ν → Float) (values : Values) :
    List (Calculation ν) → Except Fault (List Quantity)
  | [] => .ok []
  | x :: xs => do return (← run symbols values x) :: (← runAll symbols values xs)

end

/-! ## Names that matter -/

mutual

/-- Does a symbol with a property, or a name with another one, occur? -/
def uses (p : ν → Bool) (q : String → Bool) : Calculation ν → Bool
  | .whole _ => false
  | .real _ => false
  | .unit => false
  | .symbol v => p v
  | .stranger s => q (Text.plainName s)
  | .neg x => uses p q x
  | .add x y => uses p q x || uses p q y
  | .mul x y => uses p q x || uses p q y
  | .div x y => uses p q x || uses p q y
  | .power x y => uses p q x || uses p q y
  | .root x => uses p q x
  | .call _ args => anyUses p q args

/-- Does one occur in some calculation? -/
def anyUses (p : ν → Bool) (q : String → Bool) : List (Calculation ν) → Bool
  | [] => false
  | x :: xs => uses p q x || anyUses p q xs

end

end Calculation

end InitialValue.Formula
