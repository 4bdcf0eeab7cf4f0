/-
  Values of any shape: options, configurations, and what a right-hand side hands back.

  Options arrive as data that nobody has checked, so they are values of the dynamic type `Value`;
  each operation below says for which shapes it is defined and how it fails for the others.
  `toReal` reads one number, `flatten` reads a rectangular nest of numbers together with its shape,
  and `quoted` and `shown` are how a value is written inside messages.
-/
import InitialValue.Number.Number
import InitialValue.Method.Key
import InitialValue.Text.Word

namespace InitialValue

/-- Data of any shape. -/
inductive Value (α : Type) where
  | null
  | truth (b : Bool)
  | whole (n : Int)
  | real (x : α)
  | text (s : String)
  | key (k : MethodKey)
  | list (items : List (Value α))
  | record (fields : List (String × Value α))
  deriving Inhabited

namespace Value

variable {α : Type}

/-! ## Shape -/

/-- The field of a record; a later field of the same name wins. -/
def field? : Value α → String → Option (Value α)
  | .record fields, name => (fields.reverse.find? (·.1 == name)).map (·.2)
  | _, _ => none

/-- Does the value count as true? -/
def holds [Scalar α] : Value α → Bool
  | .null => false
  | .truth b => b
  | .whole n => n != 0
  | .real x => !(Scalar.compareInt? x 0 == some .eq)
  | .text s => !s.isEmpty
  | .key _ => true
  | .list items => !items.isEmpty
  | .record fields => !fields.isEmpty

/-- A whole number or a real; truth values do not count as numbers here. -/
def number? : Value α → Option (Number α)
  | .whole n => some (.whole n)
  | .real x => some (.real x)
  | _ => none

/-- A number for arithmetic, in which a truth value counts as one or zero. -/
def toNumber : Value α → Except Foreign (Number α)
  | .truth b => .ok (.whole (if b then 1 else 0))
  | .whole n => .ok (.whole n)
  | .real x => .ok (.real x)
  | _ => .error .wrongType

/-- One real number: numbers, truth values and texts that stand for a number. -/
def toReal [Scalar α] : Value α → Except Foreign α
  | .truth b => (Number.whole (if b then 1 else 0)).toReal
  | .whole n => (Number.whole n).toReal
  | .real x => .ok x
  | .text s => (Scalar.read? s).elim (.error .badValue) .ok
  | .key _ => .error .badValue
  | _ => .error .wrongType

/-- One entry of a nest of numbers: like `toReal`, but a missing value is the undefined number. -/
def entry [Scalar α] : Value α → Except Foreign α
  | .null => .ok Scalar.missing
  | v => v.toReal

/-! ## Rectangular nests of numbers -/

mutual

/-- The shape of a rectangular nest of lists; a value that is no list has the empty shape. -/
def shape : Value α → Except Foreign (List Nat)
  | .list items => shapeOfItems items
  | _ => .ok []

/-- The shape of a list from those of its items, which must agree. -/
def shapeOfItems : List (Value α) → Except Foreign (List Nat)
  | [] => .ok [0]
  | v :: rest => do
    let s ← v.shape
    allOfShape s rest
    return (rest.length + 1) :: s

/-- Checks that all items have one shape. -/
def allOfShape (s : List Nat) : List (Value α) → Except Foreign Unit
  | [] => .ok ()
  | v :: rest => do
    let t ← v.shape
    if t == s then allOfShape s rest else .error .badValue

end

mutual

/-- The entries of a nest, left to right. -/
def entries [Scalar α] : Value α → Except Foreign (List α)
  | .list items => entriesOfItems items
  | v => do return [← v.entry]

/-- The entries of a list of nests, left to right. -/
def entriesOfItems [Scalar α] : List (Value α) → Except Foreign (List α)
  | [] => .ok []
  | v :: rest => do
    let xs ← v.entries
    let ys ← entriesOfItems rest
    return xs ++ ys

end

/-- Shape and entries of a rectangular nest of numbers. -/
def flatten [Scalar α] (v : Value α) : Except Foreign (List Nat × List α) := do
  let s ← v.shape
  let xs ← v.entries
  return (s, xs)

/-- `xs` cut into pieces of length `n`. -/
def pieces {β : Type} (n : Nat) : Nat → List β → List (List β)
  | 0, _ => []
  | k + 1, xs => xs.take n :: pieces n k (xs.drop n)

/-- The nest of a shape with given entries. -/
def nest : List Nat → List α → Value α
  | [], x :: _ => .real x
  | [], [] => .null
  | n :: ns, xs => .list ((pieces (ns.foldl (· * ·) 1) n xs).map (nest ns))

/-- The length of a list whose items are no lists; none for anything else.  A list of uneven
    nesting is a failure. -/
def rowLength? (v : Value α) : Except Foreign (Option Nat) :=
  match v with
  | .list _ => do
    match ← v.shape with
    | [n] => return some n
    | _ => return none
  | _ => .ok none

/-! ## In messages -/

/-- What the type of a value is called. -/
def kind : Value α → String
  | .null => "NoneType"
  | .truth _ => "bool"
  | .whole _ => "int"
  | .real _ => "float"
  | .text _ => "str"
  | .key _ => "MethodKey"
  | .list _ => "list"
  | .record _ => "dict"

/-- `n` in hexadecimal with at least `places` figures. -/
def hexadecimal (places n : Nat) : List Char :=
  let ds := Nat.toDigits 16 n
  List.replicate (places - ds.length) '0' ++ ds

/-- One character inside quotation marks: the mark itself and the backslash are escaped, and so
    are controls. -/
def escapeChar (mark : Char) (c : Char) : List Char :=
  let n := c.toNat
  if c == mark || c == '\\' then ['\\', c]
  else if c == '\n' then ['\\', 'n']
  else if c == '\r' then ['\\', 'r']
  else if c == '\t' then ['\\', 't']
  else if n < 0x20 || n == 0x7F || (0x80 ≤ n && n ≤ 0xA0) || n == 0xAD then
    '\\' :: 'x' :: hexadecimal 2 n
  else if c != ' ' && Text.isBlank c then
    '\\' :: 'u' :: hexadecimal 4 n
  else [c]

/-- A text in quotation marks: single ones, unless it holds a single and no double one. -/
def quote (s : String) : String :=
  let cs := s.toList
  let mark := if cs.contains '\'' && !cs.contains '"' then '"' else '\''
  String.ofList (mark :: (cs.flatMap (escapeChar mark)) ++ [mark])

mutual

/-- A value inside messages, texts in quotation marks. -/
def quoted [Scalar α] : Value α → String
  | .null => "None"
  | .truth b => if b then "True" else "False"
  | .whole n => toString n
  | .real x => Scalar.text x
  | .text s => quote s
  | .key k => "<MethodKey." ++ k.capitals ++ ": '" ++ k.text ++ "'>"
  | .list items => "[" ++ String.intercalate ", " (quotedItems items) ++ "]"
  | .record fields => "\x7b" ++ String.intercalate ", " (quotedFields fields) ++ "\x7d"

/-- The items of a list inside messages. -/
def quotedItems [Scalar α] : List (Value α) → List String
  | [] => []
  | v :: rest => v.quoted :: quotedItems rest

/-- The fields of a record inside messages. -/
def quotedFields [Scalar α] : List (String × Value α) → List String
  | [] => []
  | (name, v) :: rest => (quote name ++ ": " ++ v.quoted) :: quotedFields rest

end

/-- A value inside messages, a text as it is. -/
def shown [Scalar α] : Value α → String
  | .text s => s
  | .key k => "MethodKey." ++ k.capitals
  | v => v.quoted

end Value

end InitialValue
