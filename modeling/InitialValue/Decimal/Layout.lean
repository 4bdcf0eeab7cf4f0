/-
  How machine reals are written.

  Four layouts, each a rule for placing figures that were chosen by exact arithmetic:

  * `exactText`   — the shortest decimal that reads back, positional for exponents from -4 to 15;
  * `sampleText`  — ten significant figures with an exponent, both zeros alike;
  * `roundedText` — at most `n` significant figures, trailing zeros dropped, for limits in messages;
  * `paddedText`  — exactly `n` significant figures, trailing zeros kept, for suggested steps.

  The undefined result is written `nan` and the infinities `inf` and `-inf` by all of them.
-/
import InitialValue.Decimal.Shortest

namespace InitialValue.Decimal

/-! ## Pieces -/

/-- An exponent with a sign and at least two figures. -/
def exponentText (e : Int) : String :=
  let ds := toString e.natAbs
  (if e < 0 then "-" else "+") ++ (if ds.length < 2 then "0" ++ ds else ds)

/-- Mantissa and exponent: one figure, a point if more follow, and the exponent mark. -/
def exponentForm (f : Figures) : String :=
  match f.chars with
  | [] => ""
  | d :: rest =>
    let mantissa := if rest.isEmpty then [d] else d :: '.' :: rest
    String.ofList mantissa ++ "e" ++ exponentText f.exponent

/-- Positional notation: whole part, then a point and the fraction when there is one. -/
def positional (f : Figures) : String :=
  let ds := f.chars
  if f.exponent < 0 then
    "0." ++ String.ofList (List.replicate (-f.exponent - 1).toNat '0' ++ ds)
  else
    let n := f.exponent.toNat + 1
    let whole := ds.take n ++ List.replicate (n - ds.length) '0'
    let rest := ds.drop n
    if rest.isEmpty then String.ofList whole
    else String.ofList whole ++ "." ++ String.ofList rest

/-- The texts of the machine reals that have no figures. -/
def special? (x : Float) : Option String :=
  if x.isNaN then some "nan"
  else if x.isInf then some (if x < 0 then "-inf" else "inf")
  else none

/-- Is the sign bit set? -/
def signed (x : Float) : Bool := x.toBits.toNat / Nat.pow 2 63 == 1

/-- `n` significant figures of the magnitude of a finite, nonzero machine real. -/
def significant? (n : Nat) (x : Float) : Option Figures := do
  let f ← Binary.Fraction.ofFloat? x
  if f.mant = 0 then none
  let (a, b) := f.magnitude
  let (d, e) := figures n a b
  pure ⟨d, n, e⟩

/-! ## Layouts -/

/-- The shortest text that reads back as the same machine real; a whole value keeps `.0`. -/
def exactText (x : Float) : String :=
  match special? x with
  | some s => s
  | none =>
    (if signed x then "-" else "") ++
    match shortest? x with
    | none => "0.0"
    | some f =>
      let f := f.trimmed
      if -4 ≤ f.exponent && f.exponent < 16 then
        let s := positional f
        if s.contains '.' then s else s ++ ".0"
      else exponentForm f

/-- Ten significant figures and an exponent; zero has no sign. -/
def sampleText (x : Float) : String :=
  match special? x with
  | some s => s
  | none =>
    match significant? 10 x with
    | none => "0.000000000e+00"
    | some f => (if signed x then "-" else "") ++ exponentForm f

/-- At most `n` significant figures, positional while the exponent is from -4 to below `n`. -/
def roundedText (n : Nat) (x : Float) : String :=
  match special? x with
  | some s => s
  | none =>
    (if signed x then "-" else "") ++
    match significant? n x with
    | none => "0"
    | some f =>
      let g := f.trimmed
      if -4 ≤ f.exponent && f.exponent < n then positional g else exponentForm g

/-- Exactly `n` significant figures, the point always written. -/
def paddedText (n : Nat) (x : Float) : String :=
  match special? x with
  | some s => s
  | none =>
    (if signed x then "-" else "") ++
    match significant? n x with
    | none => "0." ++ String.ofList (List.replicate (n - 1) '0')
    | some f =>
      if -4 ≤ f.exponent && f.exponent < n then
        let s := positional f
        if s.contains '.' then s else s ++ "."
      else exponentForm f

end InitialValue.Decimal
