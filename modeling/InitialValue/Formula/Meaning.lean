/-
  What a formula tree means.

  Most trees mean a symbolic term.  Some mean something else that can stand inside a formula as long
  as the whole is a term: a function that is not applied, a truth value, a statement about symbols,
  or a collection.  A tree has no meaning at all when an operation does not apply to its operands.

  Names are looked up in a `Scope`, which tells the symbol that a name stands for; functions and
  constants are the same in every scope, and any other name is a symbol that means nothing.
-/
import InitialValue.Fault
import InitialValue.Formula.Expr
import InitialValue.Formula.Names
import InitialValue.Symbolic.Standard

namespace InitialValue.Formula

open InitialValue.Symbolic

/-- The symbol that a name stands for. -/
abbrev Scope (ν : Type) := String → Option ν

/-- What a part of a formula means. -/
inductive Meaning (ν : Type) where
  | term (x : Term ν)
  /-- a function that is not applied -/
  | function (name : String)
  /-- a truth value that also counts as one or zero -/
  | fact (b : Bool)
  /-- a truth value that is no number -/
  | truth (b : Bool)
  /-- a comparison that depends on symbols -/
  | relation (c : Comparison) (x y : Term ν)
  /-- a compound statement of some kind -/
  | compound (kind : String)
  /-- the opposite of a symbol taken as a statement -/
  | negation (x : Term ν)
  | collection (b : Bracket) (items : List (Meaning ν))
  | pairs (items : List (Meaning ν × Meaning ν))
  deriving Inhabited

namespace Meaning

variable {ν : Type}

/-! ## Kinds -/

/-- What a function is called when it is no number. -/
def functionKind (name : String) : String :=
  if ["log", "log10", "log2", "sqrt"].contains name then "function"
  else if ["cbrt", "round", "random"].contains name then "UndefinedFunction"
  else if name == "pow" then "type"
  else if name == "exp" then "ExpMeta"
  else "FunctionClass"

/-- What a comparison is called. -/
def relationKind : Comparison → String
  | .less => "StrictLessThan"
  | .lessEqual => "LessThan"
  | .greater => "StrictGreaterThan"
  | _ => "GreaterThan"

/-- What a truth value is called. -/
def truthKind (b : Bool) : String := if b then "BooleanTrue" else "BooleanFalse"

/-- What a collection is called. -/
def collectionKind : Bracket → String
  | .round => "tuple"
  | .square => "list"
  | .curly => "set"

/-- The numeric value that a formula describes; anything else is called by its kind. -/
def toTerm : Meaning ν → Except Fault (Term ν)
  | .term x => .ok x
  | .function name => .error (.notNumeric (functionKind name))
  | .fact b => .error (.notNumeric (truthKind b))
  | .truth b => .error (.notNumeric (truthKind b))
  | .relation c _ _ => .error (.notNumeric (relationKind c))
  | .compound kind => .error (.notNumeric kind)
  | .negation _ => .error (.notNumeric "Not")
  | .collection b _ => .error (.notNumeric (collectionKind b))
  | .pairs _ => .error (.notNumeric "dict")

/-! ## Equality -/

mutual

/-- Are two meanings the same?  Numbers of different kinds are not. -/
def same [Ord ν] : Meaning ν → Meaning ν → Bool
  | .term x, .term y => x.same y
  | .function f, .function g => f == g
  | .fact a, .fact b => a == b
  | .truth a, .truth b => a == b
  | .fact a, .truth b => a == b
  | .truth a, .fact b => a == b
  | .fact a, .term y => (Term.ofInt (if a then 1 else 0)).same y
  | .term x, .fact b => x.same (.ofInt (if b then 1 else 0))
  | .relation c x y, .relation d z w => c == d && x.same z && y.same w
  | .negation x, .negation y => x.same y
  | .collection b xs, .collection c ys => b == c && sameItems xs ys
  | _, _ => false

/-- Are two lists of meanings the same, item by item? -/
def sameItems [Ord ν] : List (Meaning ν) → List (Meaning ν) → Bool
  | [], [] => true
  | x :: xs, y :: ys => same x y && sameItems xs ys
  | _, _ => false

end

/-! ## Truth -/

/-- Does a meaning count as true?  A comparison that depends on symbols does not tell. -/
def holds? : Meaning ν → Option Bool
  | .term x => some !x.isZero
  | .fact b => some b
  | .truth b => some b
  | .relation _ _ _ => none
  | .collection _ items => some !items.isEmpty
  | .pairs items => some !items.isEmpty
  | _ => some true

/-- Is the meaning a statement about symbols? -/
def isStatement : Meaning ν → Bool
  | .term (.symbol _) => true
  | .term (.stranger _) => true
  | .truth _ => true
  | .relation _ _ _ => true
  | .compound _ => true
  | .negation _ => true
  | _ => false

/-- A statement, of which a fact is one beside another statement. -/
def statements? (x y : Meaning ν) : Option (Meaning ν × Meaning ν) :=
  match x, y with
  | .fact a, y => if y.isStatement then some (.truth a, y) else none
  | x, .fact b => if x.isStatement then some (x, .truth b) else none
  | x, y => if x.isStatement && y.isStatement then some (x, y) else none

/-- The opposite of a statement. -/
def negate : Meaning ν → Meaning ν
  | .truth b => .truth !b
  | .term x => .negation x
  | .negation x => .term x
  | .relation .less x y => .relation .greaterEqual x y
  | .relation .lessEqual x y => .relation .greater x y
  | .relation .greater x y => .relation .lessEqual x y
  | .relation c x y => if c == .greaterEqual then .relation .less x y else .compound "Not"
  | .compound kind => if kind == "And" then .compound "Or" else .compound "And"
  | _ => .compound "Not"

/-- Both statements together. -/
def conjunction [Ord ν] (x y : Meaning ν) : Meaning ν :=
  match x, y with
  | .truth a, y => if a then y else .truth false
  | x, .truth b => if b then x else .truth false
  | x, y => if x.same y then x else if x.same y.negate then .truth false else .compound "And"

/-- At least one of the statements. -/
def disjunction [Ord ν] (x y : Meaning ν) : Meaning ν :=
  match x, y with
  | .truth a, y => if a then .truth true else y
  | x, .truth b => if b then .truth true else x
  | x, y => if x.same y then x else if x.same y.negate then .truth true else .compound "Or"

/-- The second statement if the first. -/
def implication [Ord ν] (x y : Meaning ν) : Meaning ν :=
  match x, y with
  | .truth a, y => if a then y else .truth true
  | x, .truth b => if b then .truth true else x.negate
  | x, y => if x.same y then .truth true else .compound "Implies"

/-! ## Arithmetic -/

/-- A fact as a number. -/
def ofFact (b : Bool) : Term ν := .ofInt (if b then 1 else 0)

/-- Two numeric operands.  A fact is one beside a whole number or another fact. -/
def operands? (x y : Meaning ν) : Option (Term ν × Term ν) :=
  match x, y with
  | .term a, .term b => some (a, b)
  | .fact a, .fact b => some (ofFact a, ofFact b)
  | .fact a, .term b => if b.whole?.isSome then some (ofFact a, b) else none
  | .term a, .fact b => if a.whole?.isSome then some (a, ofFact b) else none
  | _, _ => none

/-- The sum. -/
def sum [Ord ν] (a b : Term ν) : Term ν :=
  match a, b with
  | .num m, .num n => .num (m.add n)
  | a, b => Algebra.standard.add a b

/-- The product. -/
def product [Ord ν] (a b : Term ν) : Term ν :=
  match a, b with
  | .num m, .num n => .num (m.mul n)
  | a, b => Algebra.standard.mul a b

/-- The quotient.  A binary real cannot be divided by a zero of its kind. -/
def quotient? [Ord ν] (a b : Term ν) : Option (Term ν) :=
  match a, b with
  | .num (.real x), .num (.real y) =>
    if y.isZero then none else some (.num ((Coefficient.real x).div (.real y)))
  | .num (.rat p), .num (.real y) =>
    if y.isZero then some (Algebra.standard.div a b)
    else some (.num ((Coefficient.rat p).mul (Coefficient.one.div (.real y))))
  | .num m, .num (.rat q) =>
    if q = 0 then some (Algebra.standard.div a b) else some (.num (m.div (.rat q)))
  | a, b => some (Algebra.standard.div a b)

/-- The remainder, for a divisor that is not zero. -/
def remainder? [Ord ν] (a b : Term ν) : Option (Term ν) :=
  if b.isZero || b.standing == .zero then none else some (Algebra.standard.apply .mod [a, b])

/-- Two whole numbers. -/
def wholes? (x y : Meaning ν) : Option (Int × Int) := do
  let (a, b) ← x.operands? y
  return (← a.whole?, ← b.whole?)

/-- The bits that two whole numbers have in common, in two's complement. -/
def bitsBoth (a b : Int) : Int :=
  match a, b with
  | .ofNat m, .ofNat n => (m &&& n : Nat)
  | .ofNat m, .negSucc n => (m - (m &&& n) : Nat)
  | .negSucc m, .ofNat n => (n - (n &&& m) : Nat)
  | .negSucc m, .negSucc n => .negSucc (m ||| n)

/-- The bits that one of two whole numbers has, in two's complement. -/
def bitsEither (a b : Int) : Int := -1 - bitsBoth (-1 - a) (-1 - b)

/-- The largest shift to the left. -/
def farthestShift : Nat := 1000000

/-- A whole number shifted to the left; to the right for the opposite. -/
def shift? (a : Int) (left : Bool) (n : Int) : Option Int :=
  if n < 0 then none
  else if left then (if n.toNat ≤ farthestShift then some (a * Int.pow 2 n.toNat) else none)
  else if farthestShift < n.toNat then some (if a < 0 then -1 else 0)
  else some (Int.fdiv a (Int.pow 2 n.toNat))

/-- A bitwise operator on whole numbers, or the connective of statements that it stands for. -/
def bitwise? [Ord ν] (onWholes : Int → Int → Option Int)
    (onStatements : Meaning ν → Meaning ν → Meaning ν) (x y : Meaning ν) : Option (Meaning ν) :=
  match x.wholes? y with
  | some (a, b) => (onWholes a b).map fun n => .term (.ofInt n)
  | none => (statements? x y).map fun (p, q) => onStatements p q

/-! ## Operators -/

/-- A sign in front of an operand. -/
def signed? [Ord ν] : Sign → Meaning ν → Option (Meaning ν)
  | .plus, .term x => some (.term x)
  | .plus, .fact b => some (.term (ofFact b))
  | .minus, .term x => some (.term x.negate)
  | .minus, .fact b => some (.term (ofFact b).negate)
  | .inverted, .fact b => some (.term (.ofInt (if b then -2 else -1)))
  | .inverted, .term x =>
    match x.whole? with
    | some n => some (.term (.ofInt (-1 - n)))
    | none => if isStatement (.term x) then some (negate (.term x)) else none
  | .inverted, x => if x.isStatement then some x.negate else none
  | _, _ => none

/-- Copies of a list, one after another. -/
def repeated (items : List (Meaning ν)) (n : Int) : List (Meaning ν) :=
  (List.replicate n.toNat items).flatten

/-- Operators on numbers. -/
def arithmetic? [Ord ν] (op : Operator) (a b : Term ν) : Option (Term ν) :=
  match op with
  | .add => some (sum a b)
  | .sub => some (sum a b.negate)
  | .mul => some (product a b)
  | .div => quotient? a b
  | .mod => remainder? a b
  | .power => some (Algebra.standard.power a b)
  | _ => none

/-- Operators on collections: two of a kind are joined, and one is repeated. -/
def collected? (op : Operator) (x y : Meaning ν) : Option (Meaning ν) :=
  match op, x, y with
  | .add, .collection .round xs, .collection .round ys => some (.collection .round (xs ++ ys))
  | .add, .collection .square xs, .collection .square ys => some (.collection .square (xs ++ ys))
  | .mul, .collection b xs, .term n => n.whole?.bind fun n => copies b xs n
  | .mul, .term n, .collection b xs => n.whole?.bind fun n => copies b xs n
  | .union, .collection .curly xs, .collection .curly ys => some (.collection .curly (xs ++ ys))
  | _, _, _ => none
where
  copies (b : Bracket) (xs : List (Meaning ν)) (n : Int) : Option (Meaning ν) :=
    if b == .curly || 1000 < n then none else some (.collection b (repeated xs n))

/-- An operator between two operands. -/
def binary? [Ord ν] (op : Operator) (x y : Meaning ν) : Option (Meaning ν) :=
  match op with
  | .meet => bitwise? (fun a b => some (bitsBoth a b)) conjunction x y
  | .union =>
    (bitwise? (fun a b => some (bitsEither a b)) disjunction x y).orElse fun _ =>
      collected? .union x y
  | .shiftLeft => bitwise? (shift? · true ·) (fun p q => implication q p) x y
  | .shiftRight => bitwise? (shift? · false ·) implication x y
  | op =>
    match x.operands? y with
    | some (a, b) => (arithmetic? op a b).map .term
    | none => collected? op x y

/-! ## Comparisons -/

/-- The truth of an order comparison of which the sign of the difference is known. -/
def decided? (c : Comparison) (s : Standing) : Option Bool :=
  match c with
  | .greaterEqual => atLeastZero s
  | .less => (atLeastZero s).map not
  | .lessEqual => atLeastZero s.neg
  | .greater => (atLeastZero s.neg).map not
  | _ => none
where
  atLeastZero (s : Standing) : Option Bool :=
    if s.isNonNegative then some true else if s == .negative then some false else none

/-- An order comparison of numbers; those that are not real cannot be compared. -/
def ordered? [Ord ν] (c : Comparison) (a b : Term ν) : Option (Meaning ν) :=
  if !(comparable a && comparable b) then none
  else
    match a, b with
    | .num m, .num n => some (.truth (holdsOf c (m.cmp n)))
    | a, b =>
      match decided? c (sum a b.negate).standing with
      | some v => some (.truth v)
      | none => some (.relation c a b)
where
  comparable (x : Term ν) : Bool := !(x.isUndefined || x.isPole || x.standing.isNotReal)
  holdsOf (c : Comparison) (o : Ordering) : Bool :=
    match c with
    | .less => o == .lt
    | .lessEqual => o != .gt
    | .greater => o == .gt
    | _ => o != .lt

/-- One comparison. -/
def compare? [Ord ν] (c : Comparison) (x y : Meaning ν) : Option (Meaning ν) :=
  match c with
  | .equal => some (.fact (x.same y))
  | .unequal => some (.fact !(x.same y))
  | .identical => some (.fact (isAtom x && x.same y))
  | .member =>
    match y with
    | .collection _ items => some (.fact (items.any fun z => x.same z))
    | .pairs items => some (.fact (items.any fun p => x.same p.1))
    | _ => none
  | c => (x.operands? y).bind fun (a, b) => ordered? c a b
where
  /-- Is there only one of what is meant? -/
  isAtom : Meaning ν → Bool
    | .term (.num (.real _)) => false
    | .collection _ _ => false
    | .pairs _ => false
    | _ => true

/-! ## Items -/

/-- The item at a place, counted from the end when negative. -/
def item? [Ord ν] (x i : Meaning ν) : Option (Meaning ν) :=
  match x with
  | .collection .curly _ => none
  | .collection _ items => do
    let n ← place? i
    let k := if n < 0 then n + items.length else n
    if k < 0 then none else items[k.toNat]?
  | .pairs items => (items.reverse.find? fun p => p.1.same i).map (·.2)
  | _ => none
where
  place? : Meaning ν → Option Int
    | .term n => n.whole?
    | .fact b => some (if b then 1 else 0)
    | _ => none

/-! ## Functions -/

/-- The terms that arguments mean. -/
def terms? (args : List (Meaning ν)) : Option (List (Term ν)) :=
  args.mapM fun
    | .term x => some x
    | _ => none

/-- The functions of one argument. -/
def functionsOfOne : List (String × Fn) :=
  [("sin", .sin), ("cos", .cos), ("tan", .tan), ("sec", .sec), ("csc", .csc), ("cot", .cot),
   ("asin", .asin), ("acos", .acos), ("atan", .atan), ("sinh", .sinh), ("cosh", .cosh),
   ("tanh", .tanh), ("exp", .exp), ("abs", .abs), ("floor", .floor), ("ceil", .ceil),
   ("sign", .sign)]

/-- The functions that take any number of arguments and stand for themselves. -/
def openFunctions : List (String × Fn) := [("cbrt", .cbrt), ("round", .round), ("random", .random)]

/-- The value of a list by name. -/
def lookup? {β : Type} (name : String) (table : List (String × β)) : Option β :=
  (table.find? (·.1 == name)).map (·.2)

/-- An extremum, of terms that can be compared. -/
def extremum? [Ord ν] (f : Fn) (args : List (Term ν)) : Option (Term ν) :=
  if args.all Extremum.isComparable then some (Algebra.standard.apply f args) else none

/-- A function of the table above, or one with rules of its own. -/
def applyNamed? [Ord ν] (name : String) (args : List (Term ν)) : Option (Term ν) :=
  match lookup? name functionsOfOne with
  | some f =>
    match args with
    | [x] => some (Algebra.standard.apply f [x])
    | _ => none
  | none =>
    match lookup? name openFunctions with
    | some f => some (.apply f args)
    | none =>
      match name, args with
      | "atan2", [y, x] => some (Algebra.standard.apply .atan2 [y, x])
      | "sqrt", [x] => some (Algebra.standard.sqrt x)
      | "sqrt", [x, _] => some (Algebra.standard.sqrt x)
      | "pow", [x, y] => some (Algebra.standard.power x y)
      | "pow", [x, y, _] => some (Algebra.standard.power x y)
      | "log", [x] => some (Algebra.standard.apply .log [x])
      | "log", [x, b] => some (Exponential.logBase Algebra.standard x b)
      | "log10", [x] => some (Exponential.logBase Algebra.standard x (.ofInt 10))
      | "log2", [x] => some (Exponential.logBase Algebra.standard x (.ofInt 2))
      | "max", args => extremum? .max args
      | "min", args => extremum? .min args
      | _, _ => none

/-- A call. -/
def call? [Ord ν] (f : Meaning ν) (args : List (Meaning ν)) : Option (Meaning ν) :=
  match f with
  | .function name => do
    let xs ← terms? args
    return .term (← applyNamed? name xs)
  | _ => none

/-! ## Names and numbers -/

/-- The constants. -/
def constants : List (String × Term ν) :=
  [("pi", .pi), ("PI", .pi), ("e", .euler), ("E", .euler), ("i", .unit)]

/-- What a name means. -/
def ofName (scope : Scope ν) (name : String) : Meaning ν :=
  match scope name with
  | some v => .term (.symbol v)
  | none =>
    match lookup? name constants with
    | some c => .term c
    | none => if functionNames.contains name then .function name else .term (.stranger name)

/-- The largest magnitude of a decimal exponent that is read. -/
def farthestScale : Nat := 1000000

/-- A whole number written with an exponent and without a point has as many figures as it has
    digits when it is written out, and those have a limit. -/
def isTooPrecise (n : Decimal.Numeral) : Bool :=
  !n.pointed && n.digits != 0 && 0 ≤ n.scale && (Token.mostDigits : Int) < n.figures + n.scale

/-- What a number means. -/
def ofLiteral? : Literal → Option (Meaning ν)
  | .whole n => some (.term (.ofInt n))
  | .decimal n =>
    if farthestScale < n.scale.natAbs || isTooPrecise n then none
    else some (.term (.num (.real (Rounded.ofNumeral n))))

end Meaning

/-! ## Trees -/

namespace Expr

variable {ν : Type} [Ord ν]

mutual

/-- What a formula tree means. -/
def meaning? (scope : Scope ν) : Expr → Option (Meaning ν)
  | .number l => Meaning.ofLiteral? l
  | .name s => some (Meaning.ofName scope s)
  | .signed s x => do Meaning.signed? s (← meaning? scope x)
  | .binary op x y => do Meaning.binary? op (← meaning? scope x) (← meaning? scope y)
  | .compare x rest => do chain? scope (← meaning? scope x) rest
  | .either x y => do
    let v ← meaning? scope x
    if ← v.holds? then return v else meaning? scope y
  | .both x y => do
    let v ← meaning? scope x
    if ← v.holds? then meaning? scope y else return v
  | .call f args => do
    let vs ← meanings? scope args
    match f with
    | .name s =>
      match Meaning.ofName scope s with
      | .term (.stranger _) => return .term (.apply (.unknown s) (← Meaning.terms? vs))
      | g => g.call? vs
    | f => (← meaning? scope f).call? vs
  | .item x i => do Meaning.item? (← meaning? scope x) (← meaning? scope i)
  | .collection b items => do return .collection b (← meanings? scope items)
  | .pairs items => do return .pairs (← pairs? scope items)

/-- What the items of a list mean. -/
def meanings? (scope : Scope ν) : List Expr → Option (List (Meaning ν))
  | [] => some []
  | x :: xs => do return (← meaning? scope x) :: (← meanings? scope xs)

/-- What pairs mean. -/
def pairs? (scope : Scope ν) : List (Expr × Expr) → Option (List (Meaning ν × Meaning ν))
  | [] => some []
  | (x, y) :: rest => do return (← meaning? scope x, ← meaning? scope y) :: (← pairs? scope rest)

/-- What a chain of comparisons means: the comparisons one after another, up to the first that
    does not hold. -/
def chain? (scope : Scope ν) : Meaning ν → List (Comparison × Expr) → Option (Meaning ν)
  | v, [] => some v
  | v, [(c, x)] => do Meaning.compare? c v (← meaning? scope x)
  | v, (c, x) :: rest => do
    let w ← meaning? scope x
    let r ← Meaning.compare? c v w
    if ← r.holds? then chain? scope w rest else return r

end

end Expr

end InitialValue.Formula
