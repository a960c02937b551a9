import Sangria.Number.Binary64

/-!
# Arithmetic on real numbers

Division that rounds down, its remainder, and the choice of powers that stay real. The remainder of
two finite numbers is exact: both are brought to the smaller of their exponents, and the remainder
of the mantissas is taken there.
-/

namespace Sangria

/-- Why an operation on numbers has no result. -/
inductive ArithmeticFault
  /-- The divisor is zero. -/
  | divisionByZero
  /-- The result, or an operand brought to the kind of the other, is too large. -/
  | tooLarge
  deriving DecidableEq, Repr

namespace Binary64

/-- A number that is none. -/
def nan : Float :=
  ofPattern false (infinityPattern + 2 ^ 51)

/-- A zero with a given sign. -/
def zero (negative : Bool) : Float :=
  ofPattern negative 0

/-- The remainder of division rounded towards zero; it has the sign of the dividend. -/
def remainder (x y : Float) : Float :=
  if x.isFinite ∧ ¬ y.isNaN ∧ pattern y ≠ 0 then
    if y.isFinite then
      let (m, e) := magnitude x
      let (n, f) := magnitude y
      let least := min e f
      let r := (m * 2 ^ (e - least).toNat) % (n * 2 ^ (f - least).toNat)
      let q := scaled 2 r 1 least
      ofRatio (isNegative x) q.1 q.2
    else x
  else nan

/-- The remainder of division rounded down; it has the sign of the divisor. -/
def modulo (x y : Float) : Float :=
  let r := remainder x y
  if r == 0.0 then zero (isNegative y)
  else if (y < 0.0) != (r < 0.0) then r + y
  else r

/-- Division rounded down. -/
def floorQuotient (x y : Float) : Float :=
  let r := remainder x y
  let q := (x - r) / y
  let q := if r == 0.0 then q else if (y < 0.0) != (r < 0.0) then q - 1.0 else q
  if q == 0.0 then zero (isNegative x != isNegative y)
  else
    let whole := q.floor
    if q - whole > 0.5 then whole + 1.0 else whole

/-- Whether a number is an odd integer. -/
def isOddInteger (x : Float) : Bool :=
  let (n, d) := ratio x
  x.isFinite && n % d == 0 && n / d % 2 == 1

/-- Whether a finite number is an integer. -/
def isInteger (x : Float) : Bool :=
  let (n, d) := ratio x
  n % d == 0

/-- A power of two numbers that are no NaN, the exponent infinite. -/
def powInfinity (x y : Float) : Float :=
  let base := x.abs
  if base == 1.0 then 1.0
  else if (y > 0.0) == (base > 1.0) then infinity
  else 0.0

/-- A power of an infinite number with a finite exponent other than zero. -/
def infinityPow (x y : Float) : Float :=
  if y > 0.0 then if isOddInteger y then x else infinity
  else if isOddInteger y then zero (isNegative x) else 0.0

/-- A power of finite numbers, the base not zero and either positive or with an integer exponent. -/
def finitePow (x y : Float) : Except ArithmeticFault Float :=
  let flip := x < 0.0 && isOddInteger y
  let base := x.abs
  let p := if base == 1.0 then 1.0 else base.pow y
  if p.isInf then .error .tooLarge else .ok (if flip then -p else p)

/-- A power, or nothing where it is not real: a negative finite base with a fractional exponent. -/
def pow? (x y : Float) : Except ArithmeticFault (Option Float) :=
  if y == 0.0 then .ok (some 1.0)
  else if x.isNaN then .ok (some x)
  else if y.isNaN then .ok (some (if x == 1.0 then 1.0 else y))
  else if y.isInf then .ok (some (powInfinity x y))
  else if x.isInf then .ok (some (infinityPow x y))
  else if x == 0.0 then
    if y < 0.0 then .error .divisionByZero
    else .ok (some (if isOddInteger y then x else 0.0))
  else if x < 0.0 ∧ ¬ isInteger y then .ok none
  else (finitePow x y).map some

end Binary64

end Sangria
