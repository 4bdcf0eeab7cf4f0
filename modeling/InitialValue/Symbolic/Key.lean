/-
  The order in which a term is written out.

  Terms of a sum and factors of a product are written in an order of their own, given by keys.
  A key tells the class of a term, its parts, the exponent it is raised to and the number in front;
  numbers come first, then constants and symbols, products, sums, powers and functions.  The terms
  of a sum are ordered as monomials: the bases that occur are put in key order, and terms with
  higher powers of earlier bases come first; constants come last, smaller ones first.

  The numeric value of a written term depends on this order, because machine arithmetic is not
  associative.
-/
import InitialValue.Symbolic.Approx

namespace InitialValue.Symbolic

/-- A key. -/
inductive Key (ν : Type) where
  | number (n : Coefficient)
  | node (rank place : Nat) (name : String) (label : Option ν) (args : List (Key ν))
      (exponent : Key ν) (coeff : Coefficient)

namespace Key

variable {ν : Type}

/-! ## Order -/

/-- The order of optional labels. -/
def cmpLabel [Ord ν] : Option ν → Option ν → Ordering
  | none, none => .eq
  | none, some _ => .gt
  | some _, none => .lt
  | some a, some b => compare a b

mutual

/-- The order of keys. -/
def cmp [Ord ν] : Key ν → Key ν → Ordering
  | .number a, .number b => a.cmp b
  | .number _, .node .. => .lt
  | .node .., .number _ => .gt
  | .node r p n l as e c, .node r' p' n' l' as' e' c' =>
    (compare r r').then <| (compare p p').then <| (compare n n').then <| (cmpLabel l l').then <|
      (compare as.length as'.length).then <| (cmpAll as as').then <| (cmp e e').then (c.cmp c')

/-- The order of lists of keys, item by item. -/
def cmpAll [Ord ν] : List (Key ν) → List (Key ν) → Ordering
  | [], [] => .eq
  | [], _ :: _ => .lt
  | _ :: _, [] => .gt
  | x :: xs, y :: ys => (cmp x y).then (cmpAll xs ys)

end

def lt [Ord ν] (a b : Key ν) : Bool := cmp a b == .lt

def le [Ord ν] (a b : Key ν) : Bool := cmp a b != .gt

/-- Keys in order. -/
def inOrder [Ord ν] (ks : List (Key ν)) : List (Key ν) := ks.mergeSort le

/-! ## Making keys -/

def one : Key ν := .number .one

/-- The key of something that has no parts. -/
def atom (name : String) (label : Option ν) : Key ν := .node 2 0 name label [] one .one

/-- The key with another exponent. -/
def raised (k e : Key ν) : Key ν :=
  match k with
  | .node r p n l as _ c => .node r p n l as e c
  | k => k

/-- The key with another number in front. -/
def scaled (k : Key ν) (c : Coefficient) : Key ν :=
  match k with
  | .node r p n l as e _ => .node r p n l as e c
  | .number _ => .number c

end Key

/-- The class of a function: some have a place of their own, open ones come first. -/
def Fn.place (f : Fn) : Nat × Nat :=
  match f with
  | .exp => (4, 10)
  | .log => (4, 20)
  | .sin => (4, 30)
  | .cos => (4, 40)
  | .tan => (4, 50)
  | .cot => (4, 60)
  | .sinh => (4, 70)
  | .cosh => (4, 80)
  | .tanh => (4, 90)
  | .max => (5, 0)
  | .min => (5, 0)
  | f => if f.isOpaque then (4, 0) else (4, 10000)

/-- The class name of a constant. -/
def Constant.name : Constant → String
  | .pi => "Pi"
  | .euler => "Exp1"
  | .unit => "ImaginaryUnit"
  | .pole => "ComplexInfinity"
  | .infinity => "Infinity"
  | .minusInfinity => "NegativeInfinity"
  | .undefined => "NaN"

/-- What the place of a term in a sum depends on: its key, the value of its constant factors, and
    its bases with their whole exponents. -/
structure Monomial (ν : Type) where
  key : Key ν
  value : Complex
  powers : List (Key ν × Int)

namespace Monomial

variable {ν : Type} [Ord ν]

/-- The exponent of a base, zero when it does not occur. -/
def exponentOf (m : Monomial ν) (base : Key ν) : Int :=
  ((m.powers.find? fun p => p.1.cmp base == .eq).map (·.2)).getD 0

/-- All bases of some monomials, each once, in order. -/
def bases (ms : List (Monomial ν)) : List (Key ν) :=
  let ks := Key.inOrder (ms.flatMap fun m => m.powers.map (·.1))
  ks.foldr (fun k rest =>
    match rest with
    | r :: _ => if k.cmp r == .eq then rest else k :: rest
    | [] => [k]) []

/-- The order of machine reals. -/
def cmpFloat (x y : Float) : Ordering := if x < y then .lt else if y < x then .gt else .eq

/-- The order of values: real ones first, by imaginary and then by real part. -/
def cmpValue (a b : Complex) : Ordering :=
  (compare (if a.im == 0.0 then 0 else 1) (if b.im == 0.0 then 0 else 1 : Nat)).then <|
    (cmpFloat a.im b.im).then (cmpFloat a.re b.re)

/-- The order of monomials over bases: higher powers of earlier bases first, then by value. -/
def cmp (bases : List (Key ν)) (a b : Monomial ν) : Ordering :=
  match bases with
  | [] => cmpValue a.value b.value
  | k :: rest => (compare (b.exponentOf k) (a.exponentOf k)).then (cmp rest a b)

/-- Things in the order of their monomials. -/
def inOrder {β : Type} (items : List (Monomial ν × β)) : List (Monomial ν × β) :=
  let ks := bases (items.map (·.1))
  items.mergeSort fun a b => cmp ks a.1 b.1 != .gt

/-- The product of the values and the powers of factors. -/
def combine (key : Key ν) (c : Coefficient) (parts : List (Monomial ν)) : Monomial ν :=
  ⟨key, parts.foldl (fun z m => z.mul m.value) (.ofReal c.toFloat), parts.flatMap (·.powers)⟩

end Monomial

namespace Term

variable {ν : Type} [Ord ν]

mutual

/-- The monomial of a term. -/
def monomial : Term ν → Monomial ν
  | .num n => ⟨.number n, .ofReal n.toFloat, []⟩
  | .const c => ⟨.atom c.name none, c.value, []⟩
  | .symbol v => single (.atom "Symbol" (some v))
  | .stranger s => single (.atom ("Symbol " ++ s) none)
  | .sum ts =>
    let ms := (Monomial.inOrder ((monomials ts).map fun m => (m, ()))).map (·.1.key)
    orConstant (.sum ts) (.node 3 1 "Add" none ms Key.one .one)
  | .product fs =>
    match fs with
    | .num c :: rest =>
      let ms := monomials rest
      let key := match ms with
        | [m] => m.key.scaled c
        | ms => .node 3 0 "Mul" none (Key.inOrder (ms.map (·.key))) Key.one c
      Monomial.combine key c ms
    | fs =>
      let ms := monomials fs
      Monomial.combine (.node 3 0 "Mul" none (Key.inOrder (ms.map (·.key))) Key.one .one) .one ms
  | .power b e =>
    let kb := (monomial b).key
    let ke := (monomial e).key
    let base := match b with
      | .num n => Key.node 1 0 ("Number " ++ textOf n.toRat) none [] Key.one .one
      | .power _ _ => Key.node 3 2 "Pow" none (partsOf b) Key.one .one
      | _ => kb
    let key := base.raised ke
    if (Term.power b e).isConstant then orConstant (.power b e) key
    else
      match e with
      | .num (.rat q) => ⟨key, .ofReal 1.0, [(base.raised (.number (.rat (1 / q.den))), q.num)]⟩
      | .num (.real _) => single key
      | e =>
        let q := e.splitRat.1
        if q == 1 then single key
        else ⟨key, .ofReal 1.0, [(base.raised (ke.scaled (.rat (1 / q.den))), q.num)]⟩
  | .apply f args =>
    let ks := (monomials args).map (·.key)
    let (rank, place) := f.place
    let make (ks : List (Key ν)) : Key ν := .node rank place f.name none ks Key.one .one
    let key := make ks
    if (Term.apply f args).isConstant then orConstant (.apply f args) key
    else
      match f, args, ks with
      | .exp, [x], [k] =>
        let q := x.splitRat.1
        if q == 1 then single key
        else ⟨key, .ofReal 1.0, [(make [k.scaled (.rat (1 / q.den))], q.num)]⟩
      | _, _, _ => single key
where
  /-- A base of its own. -/
  single (key : Key ν) : Monomial ν := ⟨key, .ofReal 1.0, [(key, 1)]⟩
  /-- A constant if it is one with a value, else a base of its own. -/
  orConstant (t : Term ν) (key : Key ν) : Monomial ν :=
    if t.isConstant then
      match t.approx? with
      | some z => ⟨key, z, []⟩
      | none => ⟨key, .ofReal 1.0, []⟩
    else ⟨key, .ofReal 1.0, [(key, 1)]⟩
  /-- A quotient as text. -/
  textOf (q : Rat) : String :=
    if q.den = 1 then toString q.num else toString q.num ++ "/" ++ toString q.den
  /-- The keys of base and exponent. -/
  partsOf : Term ν → List (Key ν)
    | .power b e => [(monomial b).key, (monomial e).key]
    | _ => []

/-- The monomials of terms. -/
def monomials : List (Term ν) → List (Monomial ν)
  | [] => []
  | t :: ts => monomial t :: monomials ts

end

/-- The key of a term. -/
def key (t : Term ν) : Key ν := t.monomial.key

/-- The terms of a sum in the order they are written in. -/
def writtenTerms (t : Term ν) : List (Term ν) :=
  (Monomial.inOrder (t.terms.map fun x => (x.monomial, x))).map (·.2)

/-- Factors in the order they are written in. -/
def writtenFactors (fs : List (Term ν)) : List (Term ν) :=
  ((fs.map fun x => (x.key, x)).mergeSort fun a b => a.1.le b.1).map (·.2)

/-! ## Which of a term and its opposite is the plain one -/

/-- Does a term that is no sum have a negative number in front? -/
def hasMinus : Term ν → Bool
  | .num n => n.isNegative
  | .product (.num n :: _) => n.isNegative
  | .const .minusInfinity => true
  | _ => false

/-- Is the opposite the plainer one of the two?  A sum goes by the number of its terms with a
    minus, and then by its key. -/
def prefersOpposite : Term ν → Bool
  | .sum ts =>
    let negatives := ts.countP hasMinus
    let positives := ts.length - negatives
    if positives != negatives then positives < negatives
    else (Term.sum ts).key.lt (Term.sum ts).negate.key
  | t => t.hasMinus

end Term

end InitialValue.Symbolic
