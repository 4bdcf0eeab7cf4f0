/-
  Large angles.

  The circular functions of an angle depend on what is left of it modulo a full turn.  For a binary
  real of many bits that remainder is lost when the angle is made a machine real first, so it is
  computed exactly, with `π` to as many bits as the angle needs.
-/
import InitialValue.Symbolic.Rounded

namespace InitialValue.Symbolic.Angle

/-- The alternating series `power / k - power / (k n²) …` with the powers of a reciprocal, from an
    odd `k` on, until nothing is left. -/
def series (square : Nat) : Nat → Nat → Nat → Int
  | 0, _, _ => 0
  | fuel + 1, k, power =>
    if power = 0 then 0 else (power / k : Nat) - series square fuel (k + 2) (power / square)

/-- The inverse tangent of `1 / n` in units of `2 ^ -bits`. -/
def arcTanOfInverse (bits n : Nat) : Int := series (n * n) (bits + 1) 1 (Nat.pow 2 bits / n)

/-- `π` in units of `2 ^ -bits`, by the formula with the inverse tangents of a fifth and of
    `1 / 239`. -/
def piInUnits (bits : Nat) : Int := 16 * arcTanOfInverse bits 5 - 4 * arcTanOfInverse bits 239

/-- The largest magnitude, as a power of two, of an angle that is reduced. -/
def largestMagnitude : Int := 100000

/-- The machine real next to an angle modulo a full turn, between minus and plus half a turn.  An
    angle that a machine real holds exactly is left alone. -/
def reduce (x : Rounded) : Float :=
  if (x.prec ≤ 53 && x.magnitude < 1000) || largestMagnitude < x.magnitude then x.toFloat
  else
    let bits := x.magnitude.toNat + x.prec + 64
    let turn : Rat := mkRat (2 * piInUnits bits) (Nat.pow 2 bits)
    let q := x.toRat
    Binary.ofRat (q - turn * ((q / turn + 1 / 2).floor : Int))

end InitialValue.Symbolic.Angle
