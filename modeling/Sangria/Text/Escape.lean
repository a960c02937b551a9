/-!
# Escapes in string literals

Inside a string literal a backslash and the character behind it are a pair, unless that character is
a newline. Five pairs stand for one character each; any other pair stands for itself.

`unescape_escape` says that escaping a text and reading the escapes gives the text back.
-/

namespace Sangria

/-- The character that a backslash and `c` stand for, if the pair is one of the five. -/
def escapeMeaning? (c : Char) : Option Char :=
  if c = 'n' then some '\n'
  else if c = 't' then some '\t'
  else if c = '\\' ∨ c = '"' ∨ c = '\'' then some c
  else none

/-- The text that the inside of a string literal stands for. -/
def unescape : List Char → List Char
  | [] => []
  | ['\\'] => ['\\']
  | '\\' :: c :: rest =>
    if c = '\n' then '\\' :: '\n' :: unescape rest
    else match escapeMeaning? c with
      | some m => m :: unescape rest
      | none => '\\' :: c :: unescape rest
  | c :: rest => c :: unescape rest

/-- One character as it is written inside a string literal with quotes `q`. -/
def escapeChar (q c : Char) : List Char :=
  if c = q ∨ c = '\\' then ['\\', c]
  else if c = '\n' then ['\\', 'n']
  else if c = '\t' then ['\\', 't']
  else [c]

/-- The inside of a string literal with quotes `q` that stands for a text. -/
def escape (q : Char) (text : List Char) : List Char :=
  text.flatMap (escapeChar q)

/-- A character that no pair begins with stands for itself. -/
theorem unescape_cons {c : Char} (h : c ≠ '\\') (rest : List Char) :
    unescape (c :: rest) = c :: unescape rest := by
  rw [unescape]
  · intro hc; exact absurd hc h
  · intro d r hc; exact absurd hc h

/-- Reading the escapes of a character written with either quote gives the character. -/
theorem unescape_escapeChar {q : Char} (hq : q = '"' ∨ q = '\'') (c : Char) (rest : List Char) :
    unescape (escapeChar q c ++ rest) = c :: unescape rest := by
  unfold escapeChar
  split
  · rename_i h
    have hm : escapeMeaning? c = some c := by
      rcases h with rfl | rfl
      · rcases hq with rfl | rfl <;> decide
      · decide
    have hn : c ≠ '\n' := by rintro rfl; exact absurd hm (by decide)
    simp [unescape, hn, hm]
  · split
    · rename_i h; subst h; simp [unescape, escapeMeaning?]
    · split
      · rename_i h; subst h; simp [unescape, escapeMeaning?]
      · rename_i h _ _
        exact unescape_cons (fun hc ↦ h (.inr hc)) rest

/-- Reading the escapes of a text written with either quote gives the text. -/
theorem unescape_escape {q : Char} (hq : q = '"' ∨ q = '\'') (text : List Char) :
    unescape (escape q text) = text := by
  induction text with
  | nil => rfl
  | cons c rest ih =>
    rw [escape, List.flatMap_cons, unescape_escapeChar hq]
    exact congrArg _ ih

end Sangria
