/-!
# Code points and texts

A text is a list of code points. Nearly every code point is that of a character; the others are the
surrogates. No source and no character holds a surrogate, but a number written as a character can
be one, and two of them side by side stay two.
-/

namespace Sangria

/-- A code point. -/
inductive CodePoint
  /-- The code point of a character. -/
  | char (c : Char)
  /-- A surrogate, by its distance from the first one. -/
  | surrogate (n : Fin 0x800)
  deriving DecidableEq, Repr

namespace CodePoint

/-- The number of a code point. -/
def code : CodePoint → Nat
  | .char c => c.toNat
  | .surrogate n => 0xD800 + n

/-- The code point of a number, if it has one. -/
def ofNat? (n : Nat) : Option CodePoint :=
  if n.isValidChar then some (.char (Char.ofNat n))
  else if h : n - 0xD800 < 0x800 then some (.surrogate ⟨n - 0xD800, h⟩)
  else none

/-- Whether a code point is that of a character of a class. -/
def isIn (chars : Char → Bool) : CodePoint → Bool
  | .char c => chars c
  | .surrogate _ => false

/-- Whether a code point is a surrogate. -/
def isSurrogate : CodePoint → Bool
  | .char _ => false
  | .surrogate _ => true

/-- Code points are ordered by their numbers. -/
instance : Ord CodePoint where
  compare p q := compare p.code q.code

end CodePoint

/-- Any sequence of code points. -/
abbrev Text := List CodePoint

namespace Text

/-- The text of some characters. -/
def ofChars (chars : List Char) : Text :=
  chars.map .char

/-- The text of a string. -/
def ofString (s : String) : Text :=
  ofChars s.toList

/-- The characters in a text, without the surrogates. -/
def chars (t : Text) : List Char :=
  t.filterMap fun
    | .char c => some c
    | .surrogate _ => none

end Text

end Sangria
