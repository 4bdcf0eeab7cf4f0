/-
  Exact roots of whole numbers and quotients.

  A power of a quotient with a quotient as exponent is written as a `Surd`: a quotient in front, a
  power of minus one, and roots of whole numbers with exponents between zero and one.  What can be
  taken out of a root is taken out: perfect powers, and powers of small prime factors.
-/

namespace InitialValue.Symbolic

/-! ## Whole roots -/

/-- The largest `r` below `hi` and at least `lo` with `r ^ n ≤ a`, by bisection. -/
def bisectRoot (n a : Nat) : Nat → Nat → Nat → Nat
  | 0, lo, _ => lo
  | fuel + 1, lo, hi =>
    if hi ≤ lo + 1 then lo
    else
      let mid := (lo + hi) / 2
      if Nat.pow mid n ≤ a then bisectRoot n a fuel mid hi else bisectRoot n a fuel lo mid

/-- The whole part of the `n`-th root of `a`, for positive `n`. -/
def wholeRoot (n a : Nat) : Nat :=
  if n = 1 then a
  else if a.log2 < n then (if a = 0 then 0 else 1)
  else
    let bits := a.log2 / n + 1
    bisectRoot n a (bits + 2) 1 (Nat.pow 2 bits + 1)

/-- The `n`-th root of `a`, if it is whole. -/
def exactRoot? (n a : Nat) : Option Nat :=
  let r := wholeRoot n a
  if Nat.pow r n = a then some r else none

/-- A number as a power of a smaller one, with the largest exponent. -/
def perfectPower? (a : Nat) : Option (Nat × Nat) :=
  if a < 4 then none
  else ((List.range (a.log2 + 1)).reverse.filter (2 ≤ ·)).findSome? fun n =>
    (exactRoot? n a).map fun r => (r, n)

/-! ## Factors -/

/-- Divides by a number as often as it goes: how often, and what is left. -/
def divideOut (p : Nat) : Nat → Nat → Nat × Nat
  | 0, a => (0, a)
  | fuel + 1, a =>
    if p ≤ 1 || a % p != 0 || a = 0 then (0, a)
    else
      let (k, rest) := divideOut p fuel (a / p)
      (k + 1, rest)

/-- Trial division from a divisor on. -/
def trialDivision : Nat → Nat → Nat → List (Nat × Nat)
  | 0, _, a => if a = 1 then [] else [(a, 1)]
  | fuel + 1, p, a =>
    if a ≤ 1 then []
    else if a < p * p then [(a, 1)]
    else
      let (k, rest) := divideOut p (a.log2 + 1) a
      if k = 0 then trialDivision fuel (p + 1) a else (p, k) :: trialDivision fuel (p + 1) rest

/-- Factors with multiplicities: all prime factors below a bound, and what is left. -/
def factorsOf (a : Nat) : List (Nat × Nat) := trialDivision 32768 2 a

/-! ## Surds -/

/-- `coeff · (-1) ^ turn · Π base ^ exponent`. -/
structure Surd where
  coeff : Rat
  turn : Rat
  roots : List (Nat × Rat)
  deriving DecidableEq

namespace Surd

def ofRat (q : Rat) : Surd := ⟨q, 0, []⟩

def mul (a b : Surd) : Surd := ⟨a.coeff * b.coeff, a.turn + b.turn, a.roots ++ b.roots⟩

/-- One prime power under a root: what comes out, and what stays, alone or with the others. -/
def reducePrime (q : Nat) (prime multiplicity : Nat) : Nat × List (Nat × Rat) × List (Nat × Nat) :=
  let out := multiplicity / q
  let stay := multiplicity % q
  let g := Nat.gcd stay q
  if stay = 0 then (Nat.pow prime out, [], [])
  else if g != 1 then (Nat.pow prime out, [(prime, mkRat (stay / g : Nat) (q / g))], [])
  else (Nat.pow prime out, [], [(prime, stay)])

/-- `n ^ (p / q)` for positive `n` and `p`. -/
def ofNat (n p q : Nat) : Surd :=
  match exactRoot? q n with
  | some r => ofRat (Nat.pow r p : Rat)
  | none =>
    let factors := match perfectPower? n with
      | some f => [f]
      | none => factorsOf n
    let parts := factors.map fun f => reducePrime q f.1 (f.2 * p)
    let out : Nat := parts.foldl (fun m x => m * x.1) 1
    let roots := parts.flatMap fun x => x.2.1
    let stay : List (Nat × Nat) := parts.flatMap fun x => x.2.2
    let g := stay.foldl (fun g x => Nat.gcd g x.2) 0
    let joint : Nat := stay.foldl (fun m x => m * Nat.pow x.1 (x.2 / g)) 1
    let joined : List (Nat × Rat) := if joint = 1 then [] else [(joint, mkRat (g : Nat) q)]
    ⟨((out : Nat) : Rat), 0, roots ++ joined⟩

/-- `n ^ (p / q)` for a whole number that is not zero and positive `p`. -/
def ofInt (n : Int) (p q : Nat) : Surd :=
  let s := ofNat n.natAbs p q
  if n < 0 then { s with turn := mkRat p q } else s

/-- `b ^ e` for a base that is not zero and a positive exponent. -/
def ofPositive (b e : Rat) : Surd :=
  let p := e.num.toNat
  let q := e.den
  if b.den = 1 then ofInt b.num p q
  else
    let whole := p / q + 1
    let left := mkRat ((whole * q - p : Nat) : Int) q
    let top := if b.num = 1 then ofRat 1 else ofInt b.num p q
    let bottom := ofNat b.den left.num.toNat left.den
    (top.mul bottom).mul (ofRat (mkRat 1 (Nat.pow b.den whole)))

/-- `b ^ e` for a base and an exponent that are not zero. -/
def power (b e : Rat) : Surd :=
  if 0 < e then ofPositive b e
  else if b < 0 then (⟨1, e, []⟩ : Surd).mul (ofPositive (-b)⁻¹ (-e))
  else ofPositive b⁻¹ (-e)

/-! ## Products of roots -/

/-- Puts a value under a key, joining it with what is there. -/
def gather {α β : Type} [BEq α] (join : β → β → β) (a : α) (b : β) : List (α × β) → List (α × β)
  | [] => [(a, b)]
  | (a', b') :: rest =>
    if a == a' then (a', join b' b) :: rest else (a', b') :: gather join a b rest

/-- A whole number raised to an exponent: what comes out as a quotient, and what is left under a
    root with an exponent below one. -/
def carry (b : Nat) (e : Rat) : Rat × Option (Nat × Rat) :=
  let n := e.floor
  let out : Rat := if 0 ≤ n then (Nat.pow b n.toNat : Rat) else mkRat 1 (Nat.pow b n.natAbs)
  let left := e - n
  (out, if left = 0 || b = 1 then none else some (b, left))

/-- Splits off common divisors of the first base with the others: what is left of the first, the
    others, and the powers of the divisors. -/
def extract (b : Nat) (e : Rat) : List (Nat × Rat) → Nat × List (Nat × Rat) × List (Nat × Rat)
  | [] => (b, [], [])
  | (c, f) :: rest =>
    let g := Nat.gcd b c
    if g = 1 then
      let (b, rest, grown) := extract b e rest
      (b, (c, f) :: rest, grown)
    else
      let (b, rest, grown) := extract (b / g) e rest
      (b, (c / g, f) :: rest, (g, e + f) :: grown)

/-- Simplifies roots one after another: each is made coprime to those behind it, and then reduced.
    The result has a quotient in front. -/
def settle : Nat → List (Nat × Rat) → Rat × List (Nat × Rat)
  | 0, roots => (1, roots)
  | _ + 1, [] => (1, [])
  | fuel + 1, (b, e) :: rest =>
    let (b, rest, grown) := extract b e rest
    let carried := grown.map fun (g, f) => carry g f
    let out := carried.foldl (fun q x => q * x.1) 1
    let s := if b = 1 then ofRat 1 else ofPositive ((b : Nat) : Rat) e
    let (q, done) := settle fuel (rest ++ carried.filterMap (·.2))
    (s.coeff * out * q, s.roots ++ done)

/-- The product of roots of whole numbers: a quotient, and roots with different exponents. -/
def product (roots : List (Nat × Rat)) : Rat × List (Nat × Rat) :=
  let byBase := roots.foldl (fun acc (b, e) => gather (· + ·) b e acc) []
  let byExponent := byBase.foldl (fun acc (b, e) => gather (· * ·) e b acc) []
  let carried := byExponent.map fun (e, b) => carry b e
  let out := carried.foldl (fun q x => q * x.1) 1
  let (q, done) := settle (4 * carried.length + 64) (carried.filterMap (·.2))
  let joined := done.foldl (fun acc (b, e) => gather (· * ·) e b acc) []
  (out * q, joined.map fun (e, b) => (b, e))

end Surd

end InitialValue.Symbolic
