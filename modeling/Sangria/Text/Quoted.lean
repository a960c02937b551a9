import Sangria.Text.CodePoint
import Sangria.Text.Printable

/-!
# Quoted text

Text is shown between single quotes, or between double quotes when it holds a single quote and no
double one. The quote in use, the backslash and three controls are escaped by a backslash and a
letter; any other code point that is not that of a printable character is written as its number in
the shortest of three fixed widths. So whatever is quoted, the result holds characters only.
-/

namespace Sangria

/-- A number in lower-case hexadecimal, with zeros in front up to a width. -/
def hexPadded (width n : Nat) : List Char :=
  let digits := Nat.toDigits 16 n
  List.replicate (width - digits.length) '0' ++ digits

/-- The quote that a text is shown in. -/
def quoteMark (text : Text) : Char :=
  if text.contains (.char '\'') && !text.contains (.char '"') then '"' else '\''

/-- The number of a code point behind a backslash and a letter that tells the width, in
hexadecimal. -/
def codePointEscape (n : Nat) : List Char :=
  if n ≤ 0xFF then '\\' :: 'x' :: hexPadded 2 n
  else if n ≤ 0xFFFF then '\\' :: 'u' :: hexPadded 4 n
  else '\\' :: 'U' :: hexPadded 8 n

/-- One code point as it stands between quotes `q`. -/
def quotedPoint (q : Char) : CodePoint → List Char
  | .surrogate n => codePointEscape (CodePoint.surrogate n).code
  | .char c =>
    if c = q ∨ c = '\\' then ['\\', c]
    else if c = '\n' then ['\\', 'n']
    else if c = '\t' then ['\\', 't']
    else if c = '\r' then ['\\', 'r']
    else if isPrintable c then [c]
    else codePointEscape c.toNat

/-- A text in quotes, as characters. -/
def quotedChars (text : Text) : List Char :=
  let q := quoteMark text
  q :: text.flatMap (quotedPoint q) ++ [q]

/-- A text in quotes. -/
def quotedText (text : Text) : String :=
  String.ofList (quotedChars text)

/-- A string in quotes. -/
def quoted (s : String) : String :=
  quotedText (.ofString s)

/-- Characters, with every one outside ASCII written as its number. -/
def asciiOnly (text : List Char) : List Char :=
  text.flatMap fun c ↦ if c.toNat < 0x80 then [c] else codePointEscape c.toNat

end Sangria
