import Sangria.Number.Arithmetic

/-!
# Complex numbers

A fractional power of a negative number is complex, so the language has complex numbers, without a
way to write them down. Products and quotients are computed from the parts; the quotient divides by
the larger part of the divisor first, so that nothing overflows early. A power with a small integer
exponent is computed by repeated products, another one in polar form.
-/

namespace Sangria

/-- A complex number. -/
structure ComplexNumber where
  /-- The real part. -/
  re : Float
  /-- The imaginary part. -/
  im : Float

/-! ### Distance from zero -/

/-- The hypotenuse over sides `x ≥ y ≥ 0` neither large nor small: the root of the sum of squares,
corrected once for the error of the root. -/
def hypotenuseCore (x y : Float) : Float :=
  let h := (x * x + y * y).sqrt
  if h <= 2.0 * y then
    let d := h - y
    let a := x * (2.0 * d - x)
    let b := (d - 2.0 * (x - y)) * d
    h - (a + b) / (2.0 * h)
  else
    let d := h - x
    let a := 2.0 * d * (x - 2.0 * y)
    let b := (4.0 * d - y) * y + d * d
    h - (a + b) / (2.0 * h)

/-- The hypotenuse over sides `x ≥ y ≥ 0`: large and small sides are brought to a middle size first,
and a side below the last place of the other is only added. -/
def hypotenuseSorted (x y : Float) : Float :=
  let scale := Float.scaleB 1.0 (-600)
  let tiny := Float.scaleB 1.0 (-54)
  if x > Float.scaleB 1.0 511 then
    if y <= x * tiny then x + y else hypotenuseCore (x * scale) (y * scale) / scale
  else if y < Float.scaleB 1.0 (-459) then
    if x >= y / tiny then x + y else hypotenuseCore (x / scale) (y / scale) * scale
  else if y <= x * tiny then x + y
  else hypotenuseCore x y

/-- The hypotenuse over two sides of either sign. -/
def hypotenuse (x y : Float) : Float :=
  if x.isInf || y.isInf then Binary64.infinity
  else if x.isNaN || y.isNaN then x + y
  else
    let a := x.abs
    let b := y.abs
    if a < b then hypotenuseSorted b a else hypotenuseSorted a b

namespace ComplexNumber

/-- A real number as a complex one. -/
def ofReal (x : Float) : ComplexNumber := ⟨x, 0.0⟩

/-- Equality of both parts. -/
def equals (a b : ComplexNumber) : Bool :=
  a.re == b.re && a.im == b.im

/-- The sum. -/
def add (a b : ComplexNumber) : ComplexNumber := ⟨a.re + b.re, a.im + b.im⟩

/-- The difference. -/
def sub (a b : ComplexNumber) : ComplexNumber := ⟨a.re - b.re, a.im - b.im⟩

/-- The product. -/
def mul (a b : ComplexNumber) : ComplexNumber :=
  ⟨a.re * b.re - a.im * b.im, a.re * b.im + a.im * b.re⟩

/-- The quotient. -/
def div (a b : ComplexNumber) : Except ArithmeticFault ComplexNumber :=
  if b.re.abs >= b.im.abs then
    if b.re == 0.0 then .error .divisionByZero
    else
      let ratio := b.im / b.re
      let d := b.re + b.im * ratio
      .ok ⟨(a.re + a.im * ratio) / d, (a.im - a.re * ratio) / d⟩
  else if b.im.abs >= b.re.abs then
    let ratio := b.re / b.im
    let d := b.re * ratio + b.im
    .ok ⟨(a.re * ratio + a.im) / d, (a.im * ratio - a.re) / d⟩
  else .ok ⟨Binary64.nan, Binary64.nan⟩

/-- The distance from zero, if it is not too large. -/
def abs (a : ComplexNumber) : Except ArithmeticFault Float :=
  let h := hypotenuse a.re a.im
  if h.isInf && a.re.isFinite && a.im.isFinite then .error .tooLarge else .ok h

/-- The product of a number's squarings that the binary digits of an exponent select, lowest first.
`bits` bounds the number of digits. -/
def powBits : (bits : Nat) → (result square : ComplexNumber) → Nat → ComplexNumber
  | 0, result, _, _ => result
  | bits + 1, result, square, n =>
    if n = 0 then result
    else powBits bits (if n % 2 = 1 then mul result square else result) (mul square square) (n / 2)

/-- A power with an integer exponent up to 100 in size. -/
def powInt (a : ComplexNumber) (n : Int) : Except ArithmeticFault ComplexNumber :=
  let p := powBits 8 (ofReal 1.0) a n.natAbs
  if 0 < n then .ok p else div (ofReal 1.0) p

/-- A power in polar form. A zero base has powers with positive real exponents only, and a phase
without bound has no direction. -/
def powPolar (a b : ComplexNumber) : Except ArithmeticFault ComplexNumber :=
  if b.re == 0.0 && b.im == 0.0 then .ok (ofReal 1.0)
  else if a.re == 0.0 && a.im == 0.0 then
    if b.im != 0.0 || b.re < 0.0 then .error .divisionByZero else .ok (ofReal 0.0)
  else
    let distance := hypotenuse a.re a.im
    let angle := Float.atan2 a.im a.re
    let length := distance.pow b.re
    let phase := angle * b.re
    let (length, phase) :=
      if b.im != 0.0 then (length / (angle * b.im).exp, phase + b.im * distance.log)
      else (length, phase)
    if phase.isInf then .error .divisionByZero
    else .ok ⟨length * phase.cos, length * phase.sin⟩

/-- A power. -/
def pow (a b : ComplexNumber) : Except ArithmeticFault ComplexNumber :=
  let small := b.im == 0.0 && b.re == b.re.floor && b.re.abs <= 100.0
  let p := if small then powInt a (Binary64.truncate b.re) else powPolar a b
  match p with
  | .ok r => if r.re.isInf || r.im.isInf then .error .tooLarge else .ok r
  | .error f => .error f

end ComplexNumber

end Sangria
