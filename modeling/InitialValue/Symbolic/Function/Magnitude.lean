/-
  Magnitude, sign and rounding to whole numbers.

  The magnitude of a product is taken factor by factor where that gives something simpler, and
  a sum is replaced by its opposite when that is the plainer of the two.  Rounding takes whole
  summands out, and leaves what is already rounded alone.
-/
import InitialValue.Symbolic.Function.Numeric
import InitialValue.Symbolic.Key
import InitialValue.Symbolic.Power

namespace InitialValue.Symbolic

variable {ν : Type} [Ord ν]

namespace Magnitude

/-! ## Magnitude -/

/-- The plainer of a sum and its opposite. -/
def plain (x : Term ν) : Term ν := if x.isSum && x.prefersOpposite then x.negate else x

/-- Is the term a magnitude as it stands? -/
def isAbs : Term ν → Bool
  | .apply .abs _ => true
  | _ => false

/-- Has the term symbols in it? -/
def hasSymbols (x : Term ν) : Bool :=
  x.any fun
    | .symbol _ => true
    | .stranger _ => true
    | _ => false

/-- A factor in the denominator. -/
def isReciprocal : Term ν → Bool
  | .power _ (.num (.rat q)) => q < 0
  | _ => false

/-- The magnitude of one factor if it is simpler than the magnitude sign around it. -/
def ofFactor? (A : Algebra ν) (f : Term ν) : Option (Term ν) :=
  match f with
  | .power b (.num (.rat q)) =>
    if q.den = 1 && q < 0 then
      let m := A.apply .abs [b]
      if isAbs m then none else some (A.power m (.num (.rat q)))
    else
      let m := A.apply .abs [f]
      if isAbs m then none else some m
  | f =>
    let m := A.apply .abs [f]
    if isAbs m then none else some m

/-- The magnitude of a product. -/
def ofProduct (A : Algebra ν) (fs : List (Term ν)) : Term ν :=
  let bottom := fs.filter isReciprocal
  let top := fs.filter fun f => !isReciprocal f
  if (bottom.any hasSymbols) && !(top.any hasSymbols) then
    A.div (A.apply .abs [A.product top]) (A.apply .abs [A.inv (A.product bottom)])
  else
    let parts := fs.map fun f => (plain f, ofFactor? A f)
    let known := parts.filterMap (·.2)
    let unknown := parts.filterMap fun (f, m?) => if m?.isSome then none else some f
    match unknown with
    | [] => A.product known
    | [f] => A.product (known ++ [if isAbs f then f else .apply .abs [f]])
    | unknown => A.product (known ++ [.apply .abs [A.product unknown]])

/-- The magnitude. -/
def abs (A : Algebra ν) (x : Term ν) : Term ν :=
  match x with
  | .num n => .num n.abs
  | .const .pole => .const .infinity
  | .const .infinity => .const .infinity
  | .const .minusInfinity => .const .infinity
  | .const .undefined => .undefined
  | .const .unit => .one
  | .product fs => ofProduct A fs
  | x =>
    match x.standing with
    | .zero => .zero
    | .positive => x
    | .nonNegative => x
    | .negative => A.neg x
    | .nonPositive => A.neg x
    | _ =>
      match x with
      | .sum ts =>
        match Power.complexParts? ts with
        | some (a, b) => A.sqrt (.ofRat (a * a + b * b))
        | none => .apply .abs [plain x]
      | .power b (.num (.rat q)) =>
        if q.den = 1 && q < 0 then A.inv (A.apply .abs [A.power b (.num (.rat (-q)))])
        else if q.den = 1 && b.isRealValued then A.power (A.apply .abs [b]) (.num (.rat q))
        else .apply .abs [x]
      | x => .apply .abs [x]

/-! ## Sign -/

/-- The sign of a factor: what it contributes, or nothing when it is not known. -/
def signOf? (f : Term ν) : Option (Term ν) :=
  match f with
  | .const .unit => some .unit
  | f =>
    match f.standing with
    | .positive => some .one
    | .negative => some (.ofInt (-1))
    | _ => none

/-- The sign of a product: the known signs of factors are taken out. -/
def signOfProduct (A : Algebra ν) (fs : List (Term ν)) : Term ν :=
  let known := fs.filterMap signOf?
  let unknown := fs.filter fun f => (signOf? f).isNone
  if unknown.isEmpty then A.product known
  else if known.isEmpty then .apply .sign [.product fs]
  else A.product (known ++ [A.apply .sign [A.product unknown]])

/-- The sign. -/
def sign (A : Algebra ν) (x : Term ν) : Term ν :=
  match x with
  | .const .undefined => .undefined
  | .product fs => signOfProduct A fs
  | .apply .sign _ => x
  | .const .unit => .unit
  | x =>
    match x.standing with
    | .zero => .zero
    | .positive => .one
    | .negative => .ofInt (-1)
    | _ => .apply .sign [x]

/-! ## Rounding to whole numbers -/

/-- Rounding down or up. -/
structure Direction where
  fn : Fn
  ofNum : Coefficient → Int
  ofFloat : Float → Float

/-- Rounding down. -/
def down : Direction := ⟨.floor, Coefficient.floor, Float.floor⟩

/-- Rounding up. -/
def up : Direction := ⟨.ceil, fun n => -(n.neg.floor), Float.ceil⟩

/-- Is the summand a whole number, or one times the imaginary unit? -/
def isWhole (t : Term ν) : Bool :=
  match t with
  | .num n => n.whole?.isSome
  | .const .unit => true
  | .product [.num n, .const .unit] => n.whole?.isSome
  | _ => false

/-- A whole machine real. -/
def wholeOf (x : Float) : Int := Binary.value? x |>.map Rat.floor |>.getD 0

/-- A constant rounded, part by part; none where its value is too near to a whole number to tell. -/
def ofConstant? (A : Algebra ν) (d : Direction) (t : Term ν) : Option (Term ν) := do
  let z ← t.approx?
  if !(z.re.isFinite && z.im.isFinite) then none
  let near (x : Float) : Bool := (x - x.round).abs ≤ 1e-12 * (1.0 + x.abs) && x != x.round
  if near z.re || near z.im then none
  return A.sum [.ofInt (wholeOf (d.ofFloat z.re)),
    A.product [.ofInt (wholeOf (d.ofFloat z.im)), .unit]]

/-- Is the term already rounded? -/
def isRounded : Term ν → Bool
  | .apply .floor _ => true
  | .apply .ceil _ => true
  | _ => false

/-- Rounds a term to a whole number. -/
def roundTo (A : Algebra ν) (d : Direction) (x : Term ν) : Term ν :=
  match x with
  | .num n => .ofInt (d.ofNum n)
  | .const .undefined => .undefined
  | x =>
    if x.isInfinite || isRounded x then x
    else
      let (whole, rest) := x.terms.partition isWhole
      let other := A.sum rest
      if rest.isEmpty then x
      else
        let rounded :=
          if isRounded other then other
          else if other.isConstant then (ofConstant? A d other).getD (.apply d.fn [other])
          else .apply d.fn [other]
        if whole.isEmpty then rounded else A.sum (whole ++ [rounded])

end Magnitude

end InitialValue.Symbolic
