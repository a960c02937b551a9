import Sangria.Number.Rounding

/-!
# Real numbers as mantissa and exponent

A finite real number of the language is an integer below `2 ^ 53` times a power of two. Reading it
that way, and going from a quotient of integers to the nearest real, is all that exact work on real
numbers needs.

Positive finite numbers are numbered by their bit patterns in increasing order, with the number for
infinity behind the last. So `ofRatio` finds the pattern by arithmetic, and a mantissa that rounds
up to `2 ^ 53` moves to the next exponent by itself.
-/

namespace Sangria.Binary64

/-- The bit pattern of a number's absolute value. -/
def pattern (x : Float) : Nat :=
  x.toBits.toNat % 2 ^ 63

/-- Whether the sign bit is set; negative zero has it too. -/
def isNegative (x : Float) : Bool :=
  2 ^ 63 ≤ x.toBits.toNat

/-- A number with a given sign bit and a given pattern behind it. -/
def ofPattern (negative : Bool) (p : Nat) : Float :=
  .ofBits (UInt64.ofNat (if negative then p + 2 ^ 63 else p))

/-- The mantissa and the exponent of a finite number: its absolute value is the first times two to
the power of the second. -/
def magnitude (x : Float) : Nat × Int :=
  let exponent : Nat := pattern x / 2 ^ 52
  let fraction : Nat := pattern x % 2 ^ 52
  if exponent = 0 then (fraction, -1074) else (fraction + 2 ^ 52, (exponent : Int) - 1075)

/-- The absolute value of a finite number as a quotient. -/
def ratio (x : Float) : Nat × Nat :=
  let (m, e) := magnitude x
  scaled 2 m 1 e

/-- The bit pattern of infinity. -/
def infinityPattern : Nat := 0x7FF0000000000000

/-- Positive infinity. -/
def infinity : Float :=
  ofPattern false infinityPattern

/-- The exponent at which the positive quotient `n / d` has a mantissa of 53 bits, or the least
exponent of all. -/
def exponentFor (n d : Nat) : Int :=
  let e : Int := (n.log2 : Int) - d.log2 - 52
  let q := scaled 2 n d (-e)
  max (if q.1 / q.2 < 2 ^ 52 then e - 1 else e) (-1074)

/-- The number nearest to a quotient, with a given sign; a tie goes to the even mantissa, and a
quotient beyond the largest number to infinity. -/
def ofRatio (negative : Bool) (n d : Nat) : Float :=
  if n = 0 then ofPattern negative 0
  else
    let e := exponentFor n d
    let q := scaled 2 n d (-e)
    ofPattern negative (min ((e + 1074).toNat * 2 ^ 52 + roundEven q.1 q.2) infinityPattern)

/-- The number nearest to an integer, infinite if the integer is too large. -/
def ofInt (n : Int) : Float :=
  ofRatio (n < 0) n.natAbs 1

/-- The number nearest to a quotient of integers. -/
def ofIntRatio (n d : Int) : Float :=
  ofRatio ((n < 0) != (d < 0)) n.natAbs d.natAbs

/-- A finite number rounded towards zero. -/
def truncate (x : Float) : Int :=
  let (n, d) := ratio x
  let whole : Int := (n / d : Nat)
  if isNegative x then -whole else whole

/-- A finite number rounded to the nearest integer, the even one of two equally near. -/
def nearest (x : Float) : Int :=
  let (n, d) := ratio x
  let whole : Int := roundEven n d
  if isNegative x then -whole else whole

/-- How an integer stands to a number that is not NaN, exactly. -/
def compareInt (n : Int) (x : Float) : Ordering :=
  if pattern x = infinityPattern then if isNegative x then .gt else .lt
  else
    let (p, q) := ratio x
    compare (n * q) (if isNegative x then -(p : Int) else p)

/-- Whether an integer and a number are equal, exactly. -/
def equalsInt (n : Int) (x : Float) : Bool :=
  !x.isNaN && compareInt n x == .eq

end Sangria.Binary64
