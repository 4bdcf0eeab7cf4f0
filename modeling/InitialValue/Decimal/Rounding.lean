/-
  Rounding exact quotients to whole numbers and to decimal figures.

  `nearest a b` is the whole number nearest to `a / b`, an exact half going to the even neighbour.
  `figures n a b` writes a positive quotient with `n` significant decimal figures: the pair
  `(d, e)` stands for `d · 10 ^ (e - n + 1)` with `10 ^ (n - 1) ≤ d < 10 ^ n`, so `e` is the
  exponent of the leading figure.  Everything is exact arithmetic on natural numbers.
-/

namespace InitialValue.Decimal

/-- The whole number nearest to `a / b`; an exact half goes to the even neighbour. -/
def nearest (a b : Nat) : Nat :=
  let q := a / b
  let r := a % b
  if 2 * r < b then q
  else if b < 2 * r then q + 1
  else if q % 2 = 0 then q else q + 1

/-- The whole number nearest to `a / b`; an exact half goes up. -/
def nearestUp (a b : Nat) : Nat := (2 * a + b) / (2 * b)

/-! ## The leading figure -/

/-- The number of decimal figures of a natural number, zero having one. -/
def width (n : Nat) : Nat := (Nat.toDigits 10 n).length

/-- `a · 10 ^ k / b` as a pair of natural numbers, for an exponent of either sign. -/
def scaled (a b : Nat) (k : Int) : Nat × Nat :=
  if 0 ≤ k then (a * Nat.pow 10 k.toNat, b) else (a, b * Nat.pow 10 (-k).toNat)

/-- The exponent `e` with `10 ^ e ≤ a / b < 10 ^ (e + 1)`, for positive `a` and `b`: the number of
    figures gives it up to one, and one comparison settles it. -/
def exponent (a b : Nat) : Int :=
  let guess : Int := (width a : Int) - width b
  let (p, q) := scaled a b (-guess)
  if p < q then guess - 1 else guess

/-! ## Significant figures -/

/-- `n` significant figures of the positive quotient `a / b` under a rounding rule. -/
def figuresBy (round : Nat → Nat → Nat) (n : Nat) (a b : Nat) : Nat × Int :=
  let e := exponent a b
  let (p, q) := scaled a b ((n : Int) - 1 - e)
  let d := round p q
  if d < Nat.pow 10 n then (d, e) else (d / 10, e + 1)

/-- `n` significant figures of the positive quotient `a / b`, nearest, ties to even. -/
def figures (n : Nat) (a b : Nat) : Nat × Int := figuresBy nearest n a b

end InitialValue.Decimal
