import Sangria.Number.Decimal

/-!
# The text of real numbers

A finite number is written with the fewest digits that read back as it. Numbers from `10 ^ -4` up to
but below `10 ^ 16` are written with a point in place, others with one digit before the point and an
exponent. An integer keeps a point and a zero where the style asks for it.
-/

namespace Sangria

/-- The words for numbers that are not finite; a NaN has no sign. -/
def nonFiniteText (x : Float) : List Char :=
  if x.isNaN then ['n', 'a', 'n']
  else if Binary64.isNegative x then ['-', 'i', 'n', 'f']
  else ['i', 'n', 'f']

/-- The text of a finite number's absolute value. -/
def magnitudeText (pointed : Bool) (x : Float) : List Char :=
  let d := Decimal.shortest x
  let e := d.scientificExponent
  if -4 ≤ e ∧ e < 16 then
    match d.positional with
    | (whole, []) => if pointed then whole ++ ['.', '0'] else whole
    | (whole, places) => whole ++ '.' :: places
  else
    match d.text with
    | [] => []
    | [c] => c :: Decimal.exponentPart e
    | c :: rest => c :: '.' :: rest ++ Decimal.exponentPart e

/-- The text of a number; `pointed` asks for a point in integers too. -/
def realChars (pointed : Bool) (x : Float) : List Char :=
  if x.isFinite then
    (if Binary64.isNegative x then ['-'] else []) ++ magnitudeText pointed x
  else nonFiniteText x

/-- The text of a real number. -/
def realText (x : Float) : String :=
  String.ofList (realChars true x)

/-- The text of a complex number: its imaginary part alone when the real part is zero without a
sign, and otherwise both in parentheses with the sign of the imaginary part between them. -/
def complexText (re im : Float) : String :=
  let imaginary := realChars false im
  if Binary64.pattern re = 0 ∧ ¬ Binary64.isNegative re then String.ofList (imaginary ++ ['j'])
  else
    let signed := if imaginary.head? = some '-' then imaginary else '+' :: imaginary
    String.ofList ('(' :: realChars false re ++ signed ++ ['j', ')'])

end Sangria
