import Sangria.Number.Binary64

/-!
# Decimals

A decimal is an integer times a power of ten. `Decimal.toReal` reads one as a real number,
`shortest` finds the one with the fewest digits that reads back as a given number, and `atPlaces`
and `atDigits` round a number to a given number of places or of digits.
-/

namespace Sangria

/-- The digits of a number as an integer, and the power of ten they are multiplied by. -/
structure Decimal where
  /-- The digits. -/
  digits : Nat
  /-- The exponent of ten. -/
  exponent : Int
  deriving DecidableEq, Repr

namespace Decimal

/-- The digits as text. -/
def text (d : Decimal) : List Char :=
  Nat.toDigits 10 d.digits

/-- The exponent in scientific notation. -/
def scientificExponent (d : Decimal) : Int :=
  d.exponent + d.text.length - 1

/-- The number nearest to a decimal, with a given sign. Exponents that lead beyond all numbers, or
below the least of them whatever the digits, are settled without powers of ten. -/
def toReal (negative : Bool) (d : Decimal) : Float :=
  if d.digits = 0 then Binary64.ofPattern negative 0
  else if 310 < d.exponent then Binary64.ofPattern negative Binary64.infinityPattern
  else if d.exponent < -(400 + (d.digits.log2 : Int)) then Binary64.ofPattern negative 0
  else
    let q := scaled 10 d.digits 1 d.exponent
    Binary64.ofRatio negative q.1 q.2

/-! ### Shortest decimals -/

/-- The ends of the interval of numbers that are read as `m * 2 ^ e`, and the number itself, in
units of `2 ^ (e - 2)`. Below a power of two the neighbours are nearer. -/
def readingInterval (m : Nat) (e : Int) : Nat × Nat × Nat :=
  (4 * m - if m = 2 ^ 52 ∧ -1074 < e then 1 else 2, 4 * m, 4 * m + 2)

/-- The multiple of `10 ^ s` nearest to `m * 2 ^ e` of those that read back as it, if there is one:
only the two neighbours of the number on that grid can be. The ends of the interval read back iff
the mantissa is even. -/
def onGrid (m : Nat) (e s : Int) : Option Nat :=
  let (low, value, high) := readingInterval m e
  let (a, b) := scaled 2 1 1 (e - 2)
  let (a, b) := scaled 10 a b (-s)
  let readsBack := fun c ↦
    if m % 2 = 0 then low * a ≤ c * b && c * b ≤ high * a
    else low * a < c * b && c * b < high * a
  let c := value * a / b
  match readsBack c, readsBack (c + 1) with
  | true, true => some (roundEven (value * a) b)
  | true, false => some c
  | false, true => some (c + 1)
  | false, false => none

/-- The decimal with the fewest digits that reads back as a finite number, the nearest of them.
Seventeen digits always suffice. -/
def shortest (x : Float) : Decimal :=
  let (m, e) := Binary64.magnitude x
  if m = 0 then ⟨0, 0⟩
  else
    let (n, d) := Binary64.ratio x
    let top := decimalExponent n d
    let found := (List.range 17).findSome? fun (i : Nat) ↦
      (onGrid m e (top - i)).map fun c ↦ (⟨c, top - i⟩ : Decimal)
    match found with
    | some r => if r.digits % 10 = 0 then ⟨r.digits / 10, r.exponent + 1⟩ else r
    | none => ⟨0, 0⟩

/-! ### Rounded decimals -/

/-- The absolute value of a finite number rounded to a number of decimal places, which may be
negative. -/
def atPlaces (x : Float) (places : Int) : Decimal :=
  let (n, d) := Binary64.ratio x
  let q := scaled 10 n d places
  ⟨roundEven q.1 q.2, -places⟩

/-- The absolute value of a finite number rounded to a positive number of digits: the digits, all of
them kept, and the exponent that the first of them has. -/
def atDigits (x : Float) (count : Nat) : List Char × Int :=
  let (n, d) := Binary64.ratio x
  if n = 0 then (List.replicate count '0', 0)
  else
    let top := decimalExponent n d
    let r := atPlaces x ((count : Int) - 1 - top)
    if r.digits = 10 ^ count then ('1' :: List.replicate (count - 1) '0', top + 1)
    else (r.text, top)

/-! ### Notations -/

/-- The text before the point and the text behind it. -/
def positional (d : Decimal) : List Char × List Char :=
  if 0 ≤ d.exponent then
    (if d.digits = 0 then ['0'] else d.text ++ List.replicate d.exponent.toNat '0', [])
  else
    let places := (-d.exponent).toNat
    let text := List.replicate (places + 1 - d.text.length) '0' ++ d.text
    (text.take (text.length - places), text.drop (text.length - places))

/-- The exponent part of scientific notation: its letter, its sign and at least two digits. -/
def exponentPart (e : Int) : List Char :=
  let digits := Nat.toDigits 10 e.natAbs
  'e' :: (if e < 0 then '-' else '+') :: List.replicate (2 - digits.length) '0' ++ digits

end Decimal

end Sangria
