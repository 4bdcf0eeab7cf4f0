/-
  The shortest decimal of a machine real.

  A decimal `d · 10 ^ k` reads back as `x` when `x` is the machine real nearest to it.  `shortest?`
  finds the fewest figures for which some decimal reads back, and of those decimals the one nearest
  to `x`: on the grid of `n` figures only the two neighbours of `x` need to be tried.
-/
import InitialValue.Binary

namespace InitialValue.Decimal

/-- The positive decimal `digits · 10 ^ (exponent - figures + 1)`; `exponent` is the place of its
    leading figure. -/
structure Figures where
  digits : Nat
  figures : Nat
  exponent : Int
  deriving Repr, DecidableEq

namespace Figures

/-- The value as a quotient of natural numbers. -/
def quotient (f : Figures) : Nat × Nat := scaled f.digits 1 (f.exponent - f.figures + 1)

/-- The decimal without trailing zeros, keeping at least one figure. -/
def trimmed (f : Figures) : Figures :=
  go f.figures f
where
  go : Nat → Figures → Figures
    | n + 1, g =>
      if 1 < g.figures && g.digits % 10 == 0 then
        go n ⟨g.digits / 10, g.figures - 1, g.exponent⟩
      else g
    | 0, g => g

/-- The figures as characters, leading zeros written. -/
def chars (f : Figures) : List Char :=
  let ds := Nat.toDigits 10 f.digits
  List.replicate (f.figures - ds.length) '0' ++ ds

end Figures

/-! ## Which decimals read back -/

/-- Does the decimal round to the positive machine real with these bits? -/
def readsBack (bits : UInt64) (f : Figures) : Bool :=
  let (a, b) := f.quotient
  (Binary.nearest false a b).toBits == bits

/-- The neighbours of `a / b` on the grid of `n` figures, the nearer one first. -/
def neighbours (n : Nat) (a b : Nat) : List Figures :=
  let e := exponent a b
  let (p, q) := scaled a b ((n : Int) - 1 - e)
  let below : Figures := ⟨p / q, n, e⟩
  let above : Figures :=
    if p / q + 1 < Nat.pow 10 n then ⟨p / q + 1, n, e⟩ else ⟨Nat.pow 10 (n - 1), n, e + 1⟩
  if nearest p q = p / q then [below, above] else [above, below]

/-- The shortest decimal that reads back, the nearest one of that length, with at most `17`
    figures; none for zero. -/
def shortest? (x : Float) : Option Figures := do
  let f ← Binary.Fraction.ofFloat? x
  if f.mant = 0 then none
  let (a, b) := f.magnitude
  let bits := x.abs.toBits
  (List.range 17).findSome? fun n => (neighbours (n + 1) a b).find? (readsBack bits)

end InitialValue.Decimal
