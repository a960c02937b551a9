import Sangria.Text.CodePoint
import Sangria.Text.CodeSet
import Sangria.Text.DecimalDigit

/-!
# Blanks around numerals

A numeral may stand between blanks of any script and be written with digits of any script. It is
read after both are brought to ASCII: a foreign blank becomes a space and a foreign digit the ASCII
one of its value. No other foreign code point can be part of a numeral; the text is read up to there
and ends in a question mark, which cannot be part of one either.
-/

namespace Sangria

/-- The blanks outside ASCII. -/
def foreignBlanks : CodeSet :=
  [(0x85, 0x85), (0xA0, 0xA0), (0x1680, 0x1680), (0x2000, 0x200A), (0x2028, 0x2029),
    (0x202F, 0x202F), (0x205F, 0x205F), (0x3000, 0x3000)]

/-- The ASCII digit of a value. -/
def asciiDigit (n : Nat) : Char :=
  Char.ofNat ('0'.toNat + n)

/-- One code point brought to ASCII, if it is ASCII, a blank or a digit. -/
def asciiNumeralChar? : CodePoint → Option Char
  | .surrogate _ => none
  | .char c =>
    if c.toNat < 0x80 then some c
    else if foreignBlanks.has c then some ' '
    else (decimalValue? c).map asciiDigit

/-- The blanks that may stand around a numeral: the space and the controls from tab to carriage
return. -/
def isNumeralBlank (c : Char) : Bool :=
  c = ' ' || (9 ≤ c.toNat && c.toNat ≤ 13)

/-- A text without the blanks at both ends. -/
def trimBlanks (text : List Char) : List Char :=
  ((text.dropWhile isNumeralBlank).reverse.dropWhile isNumeralBlank).reverse

/-- A text brought to ASCII and without the blanks at both ends. -/
def numeralBody (text : Text) : List Char :=
  let front := text.takeWhile fun p ↦ (asciiNumeralChar? p).isSome
  let mark := if front.length < text.length then ['?'] else []
  trimBlanks (front.filterMap asciiNumeralChar? ++ mark)

end Sangria
