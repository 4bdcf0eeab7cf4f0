/-
  Complex machine numbers.

  The functions follow from the real ones: products and quotients from the parts, the exponential
  from modulus and angle, powers and the inverse functions from the exponential and the logarithm,
  with the usual cuts along the axes.
-/

namespace InitialValue

/-- A complex number with machine reals as parts. -/
structure Complex where
  re : Float
  im : Float

namespace Complex

def ofReal (x : Float) : Complex := ⟨x, 0.0⟩

def unit : Complex := ⟨0.0, 1.0⟩

/-- Is the number a real one? -/
def isReal (z : Complex) : Bool := z.im == 0.0

/-! ## Arithmetic -/

def add (a b : Complex) : Complex := ⟨a.re + b.re, a.im + b.im⟩

def sub (a b : Complex) : Complex := ⟨a.re - b.re, a.im - b.im⟩

def neg (a : Complex) : Complex := ⟨-a.re, -a.im⟩

def mul (a b : Complex) : Complex := ⟨a.re * b.re - a.im * b.im, a.re * b.im + a.im * b.re⟩

def scale (x : Float) (a : Complex) : Complex := ⟨x * a.re, x * a.im⟩

/-- The quotient; the divisor's larger part is divided out first, so that it cannot overflow. -/
def div (a b : Complex) : Complex :=
  if b.im.abs ≤ b.re.abs then
    let r := b.im / b.re
    let d := b.re + b.im * r
    ⟨(a.re + a.im * r) / d, (a.im - a.re * r) / d⟩
  else
    let r := b.re / b.im
    let d := b.re * r + b.im
    ⟨(a.re * r + a.im) / d, (a.im * r - a.re) / d⟩

/-- The modulus. -/
def abs (a : Complex) : Float :=
  let x := a.re.abs
  let y := a.im.abs
  let m := if x < y then y else x
  if m == 0.0 || !m.isFinite then m
  else
    let u := x / m
    let v := y / m
    m * (u * u + v * v).sqrt

/-- The angle. -/
def arg (a : Complex) : Float := Float.atan2 a.im a.re

/-! ## Functions -/

/-- The number of a modulus and an angle. -/
def polar (r angle : Float) : Complex := ⟨r * angle.cos, r * angle.sin⟩

def exp (a : Complex) : Complex := if a.im == 0.0 then ⟨a.re.exp, a.im⟩ else polar a.re.exp a.im

def log (a : Complex) : Complex := ⟨a.abs.log, a.arg⟩

/-- A power with a natural exponent, by repeated squaring. -/
def powNat (a : Complex) : Nat → Nat → Complex
  | 0, _ => ofReal 1.0
  | fuel + 1, n =>
    if n = 0 then ofReal 1.0
    else
      let half := powNat a fuel (n / 2)
      let sq := mul half half
      if n % 2 = 0 then sq else mul sq a

/-- The power; exponents that are small whole numbers are multiplied out. -/
def pow (a b : Complex) : Complex :=
  if b.re == 0.0 && b.im == 0.0 then ofReal 1.0
  else if a.re == 0.0 && a.im == 0.0 then ofReal 0.0
  else if b.im == 0.0 && b.re.floor == b.re && b.re.abs ≤ 100.0 then
    let n := b.re.abs.toUInt64.toNat
    let p := powNat a (n + 1) n
    if b.re < 0.0 then div (ofReal 1.0) p else p
  else
    let r := a.abs.pow b.re * (-b.im * a.arg).exp
    polar r (b.re * a.arg + b.im * a.abs.log)

/-- The square root with non-negative real part. -/
def sqrt (a : Complex) : Complex :=
  if a.re == 0.0 && a.im == 0.0 then ofReal 0.0
  else
    let r := ((a.abs + a.re.abs) / 2.0).sqrt
    if 0.0 ≤ a.re then ⟨r, a.im / (2.0 * r)⟩
    else ⟨a.im.abs / (2.0 * r), if a.im < 0.0 then -r else r⟩

def sinh (a : Complex) : Complex := ⟨a.re.sinh * a.im.cos, a.re.cosh * a.im.sin⟩

def cosh (a : Complex) : Complex := ⟨a.re.cosh * a.im.cos, a.re.sinh * a.im.sin⟩

def tanh (a : Complex) : Complex := div (sinh a) (cosh a)

/-- A quarter turn forward. -/
def turn (a : Complex) : Complex := ⟨-a.im, a.re⟩

/-- A quarter turn back. -/
def turnBack (a : Complex) : Complex := ⟨a.im, -a.re⟩

def sin (a : Complex) : Complex := turnBack (sinh (turn a))

def cos (a : Complex) : Complex := cosh (turn a)

def tan (a : Complex) : Complex := turnBack (tanh (turn a))

def asin (a : Complex) : Complex :=
  turnBack (log (add (turn a) (sqrt (sub (ofReal 1.0) (mul a a)))))

def acos (a : Complex) : Complex := sub (ofReal 1.5707963267948966) (asin a)

def atan (a : Complex) : Complex :=
  let i := turn a
  scale 0.5 (turnBack (sub (log (add (ofReal 1.0) i)) (log (sub (ofReal 1.0) i))))

/-- The inverse hyperbolic sine. -/
def asinh (a : Complex) : Complex := turnBack (asin (turn a))

/-- The inverse hyperbolic tangent. -/
def atanh (a : Complex) : Complex := turnBack (atan (turn a))

/-- The number divided by its modulus; zero for zero. -/
def sign (a : Complex) : Complex :=
  let r := a.abs
  if r == 0.0 then ofReal 0.0 else ⟨a.re / r, a.im / r⟩

end Complex

end InitialValue
