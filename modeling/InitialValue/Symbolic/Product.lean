/-
  Products.

  Numbers are multiplied up in front.  Powers of one base are joined by adding exponents that
  differ only in the number in front of them; roots of whole numbers are combined among themselves,
  and so are the powers of minus one, of which the imaginary unit is the half.  Powers of different
  positive numbers with one exponent become one power.  A number times a sum is multiplied out.
-/
import InitialValue.Symbolic.Algebra
import InitialValue.Symbolic.Approx
import InitialValue.Symbolic.Root

namespace InitialValue.Symbolic

variable {ν : Type} [Ord ν]

namespace Product

/-! ## Sorting the factors -/

/-- The factors of a product by what is done with them. -/
structure Parts (ν : Type) where
  coeff : Coefficient
  /-- the exponent of minus one -/
  turn : Rat
  /-- roots of whole numbers -/
  roots : List (Nat × Rat)
  /-- positive numbers with an exponent that is no quotient -/
  numeric : List (Term ν × Term ν)
  /-- all other bases with exponents -/
  powers : List (Term ν × Term ν)

/-- No factors. -/
def Parts.none : Parts ν := ⟨.one, 0, [], [], []⟩

/-- A root of a quotient that is not zero. -/
def Parts.addSurd (p : Parts ν) (s : Surd) : Parts ν :=
  { p with
    coeff := p.coeff.mul (.rat s.coeff), turn := p.turn + s.turn, roots := p.roots ++ s.roots }

/-- One more factor. -/
def Parts.add (p : Parts ν) (f : Term ν) : Parts ν :=
  match f with
  | .num n => { p with coeff := p.coeff.mul n }
  | .const .unit => { p with turn := p.turn + 1 / 2 }
  | .power (.num (.rat q)) (.num (.rat e)) =>
    if q.den = 1 && 0 < e && e < 1 then
      { p with
        turn := if q < 0 then p.turn + e else p.turn
        roots := if q.num.natAbs = 1 then p.roots else p.roots ++ [(q.num.natAbs, e)] }
    else if q = 0 then { p with powers := p.powers ++ [(.num (.rat q), .num (.rat e))] }
    else p.addSurd (Surd.power q e)
  | f =>
    let (b, e) := f.baseExponent
    match b with
    | .num n =>
      if n.isPositive && f.isPower then { p with numeric := p.numeric ++ [(b, e)] }
      else { p with powers := p.powers ++ [(b, e)] }
    | _ => { p with powers := p.powers ++ [(b, e)] }

/-! ## Joining powers -/

/-- The exponents of one base: sums of numbers, by what stands behind the number. -/
structure Exponents (ν : Type) where
  base : Term ν
  parts : List (Term ν × Coefficient)

/-- Adds a multiple to a list of multiples. -/
def addMultiple (t : Term ν) (c : Coefficient) :
    List (Term ν × Coefficient) → List (Term ν × Coefficient)
  | [] => [(t, c)]
  | (t', c') :: rest =>
    if t'.same t then (t', c'.add c) :: rest else (t', c') :: addMultiple t c rest

/-- Adds a power to a collection by base. -/
def collect (b e : Term ν) : List (Exponents ν) → List (Exponents ν)
  | [] => [⟨b, [(e.split.2, e.split.1)]⟩]
  | x :: rest =>
    if x.base.same b then ⟨x.base, addMultiple e.split.2 e.split.1 x.parts⟩ :: rest
    else x :: collect b e rest

/-- Powers with equal bases joined, as far as their exponents differ only by a number. -/
def gather (A : Algebra ν) (powers : List (Term ν × Term ν)) : List (Term ν × Term ν) :=
  let collected := powers.foldl (fun acc p => collect p.1 p.2 acc) []
  collected.flatMap fun x => x.parts.map fun (t, c) => (x.base, A.mul (.num c) t)

/-- Evaluates powers; also tells the bases they have now, and whether one of them changed. -/
def evaluate (A : Algebra ν) (powers : List (Term ν × Term ν)) :
    List (Term ν) × List (Term ν × Term ν) × Bool :=
  powers.foldr (fun (b, e) (fs, now, changed) =>
    if e.isZero then (fs, now, changed)
    else if e.isOne then (b :: fs, (b, e) :: now, changed)
    else
      let p := A.power b e
      if p.isPower && !b.isPower then
        let (b', e') := p.baseExponent
        (p :: fs, (b', e') :: now, changed || !b'.same b)
      else (p :: fs, (b, e) :: now, changed)) ([], [], false)

/-- Do two powers in a list have one base? -/
def repeats : List (Term ν × Term ν) → Bool
  | [] => false
  | (b, _) :: rest => (rest.any fun x => x.1.same b) || repeats rest

/-- The factors that powers amount to.  When evaluation changes a base so that it meets another,
    they are joined once more. -/
def powerFactors (A : Algebra ν) (powers : List (Term ν × Term ν)) : List (Term ν) :=
  let (fs, now, changed) := evaluate A (gather A powers)
  if changed && repeats now then (evaluate A (gather A now)).1 else fs

/-- Powers of positive numbers, joined by base and then by exponent. -/
def numericFactors (A : Algebra ν) (numeric : List (Term ν × Term ν)) : List (Term ν) :=
  let joined := gather A numeric
  let byExponent := joined.foldl (fun acc (b, e) => put e b acc) []
  byExponent.map fun (e, bs) => A.power (A.product bs) e
where
  /-- Puts a base under its exponent. -/
  put (e b : Term ν) : List (Term ν × List (Term ν)) → List (Term ν × List (Term ν))
    | [] => [(e, [b])]
    | (e', bs) :: rest => if e'.same e then (e', bs ++ [b]) :: rest else (e', bs) :: put e b rest

/-! ## Roots and the imaginary unit -/

/-- The factors that roots and a power of minus one amount to, with the sign of the whole. -/
def rootFactors (turn : Rat) (roots : List (Nat × Rat)) : Rat × List (Term ν) :=
  let (q, roots) := Surd.product roots
  let n := turn.floor
  let left := turn - n
  let sign : Rat := if n % 2 = 0 then 1 else -1
  let plain := roots.map fun (b, e) => Term.power (.ofInt b) (.ofRat e)
  if left = 0 then (sign * q, plain)
  else if left.den = 2 then (sign * q, .unit :: plain)
  else
    match roots.find? fun r => r.2 = left with
    | some _ =>
      (sign * q, roots.map fun (b, e) =>
        .power (.ofInt (if e = left then -(b : Int) else b)) (.ofRat e))
    | none => (sign * q, .power (.ofInt (-1)) (.ofRat left) :: plain)

/-! ## Putting the factors together -/

/-- A number times every term of a sum. -/
def distribute (A : Algebra ν) (c : Coefficient) (ts : List (Term ν)) : Term ν :=
  A.sum (ts.map fun t => A.mul (.num c) t)

/-- The product of a number and evaluated factors. -/
def assemble (A : Algebra ν) (coeff : Coefficient) (fs : List (Term ν)) : Term ν :=
  if fs.any Term.isUndefined then .undefined
  else if fs.any Term.isPole then (if coeff.isZero then .undefined else .pole)
  else if coeff.isZero then (if fs.any Term.isInfinite then .undefined else .zero)
  else
    let coeff := fs.foldl (fun c f => match f with
      | .num n => c.mul n
      | _ => c) coeff
    let rest := Term.inOrder (fs.filter fun f => !f.isNum)
    if coeff.isZero then .zero
    else if coeff == .one then Term.ofFactors rest
    else match rest with
      | [.sum ts] => distribute A coeff ts
      | rest => Term.ofFactors (.num coeff :: rest)

/-- The product of any factors. -/
def general (A : Algebra ν) (fs : List (Term ν)) : Term ν :=
  let p := fs.foldl Parts.add Parts.none
  let powers := powerFactors A p.powers
  let numeric := numericFactors A p.numeric
  let (q, roots) := rootFactors p.turn p.roots
  let coeff := p.coeff.mul (.rat q)
  let all := powers ++ numeric ++ roots
  if all.any fun f => f.isProduct then
    -- an evaluated power fell apart into factors
    A.product (.num coeff :: all.flatMap Term.factors)
  else assemble A coeff all

/-- Infinite factors: infinity has the sign of the product of all that have one. -/
def ofInfinite (fs : List (Term ν)) : Term ν :=
  if fs.any Term.isZero then .undefined
  else if fs.any Term.isPole then .pole
  else
    let signs := fs.map fun f => match f with
      | .const .infinity => Standing.positive
      | .const .minusInfinity => Standing.negative
      | f => f.standing
    let negatives := signs.countP (· == .negative)
    let rest := (fs.zip signs).filter fun x => !(x.2 == .positive || x.2 == .negative)
    let inf : Term ν := if negatives % 2 = 0 then .const .infinity else .const .minusInfinity
    Term.ofFactors (Term.inOrder (inf :: rest.map (·.1)))

/-- A number times a term that may have a number in front itself: only the numbers are multiplied,
    except that a number times a sum is multiplied out. -/
def byNumber? (A : Algebra ν) (fs : List (Term ν)) : Option (Term ν) :=
  match fs with
  | [x, y] =>
    let (x, y) := if y.rat?.isSome then (y, x) else (x, y)
    match x with
    | .num (.rat a) =>
      if a = 0 || y.isNum then none
      else
        let (r, rest) := y.split
        if r == .one then
          match rest with
          | .sum ts => some (distribute A (.rat a) ts)
          | _ => none
        else
          let c := (Coefficient.rat a).mul r
          some (if c == .one then rest else Term.ofFactors (.num c :: rest.factors))
    | _ => none
  | _ => none

end Product

/-- The product of terms. -/
def Algebra.productStep (A : Algebra ν) (fs : List (Term ν)) : Term ν :=
  let fs := fs.filter fun f => !f.isOne
  match fs with
  | [] => .one
  | [f] => f
  | fs =>
    if fs.any Term.isUndefined then .undefined
    else if fs.any Term.isInfinite then Product.ofInfinite (fs.flatMap Term.factors)
    else match Product.byNumber? A fs with
      | some t => t
      | none => Product.general A (fs.flatMap Term.factors)

end InitialValue.Symbolic
