import Sangria.Token.Scanner

/-!
# Blocks from indentation

The layout of a source is read off its lexemes one at a time. A logical line starts at the first
token after a line end that counts; its width is compared with the widths of the blocks that are
open, and the blocks that it opens or closes are announced before it. Line ends count only outside
parentheses and behind a token.

`Layout.take` says what one lexeme adds to the stream and how the layout changes, `Layout.close`
what the end of the source adds.
-/

namespace Sangria

/-- How many columns a tab takes. -/
def tabWidth : Nat := 4

-- The sum begins with the numeral zero, also where `Nat` has a zero by way of its multiplication.
attribute [local instance (high)] Zero.ofOfNat0 in
/-- The width of the text between the start of an offset's line and the offset. -/
def indentWidth (text : List Char) (k : Int) : Nat :=
  ((lineBefore text k).map fun c ↦ if c = '\t' then tabWidth else 1).sum

/-- Why a source cannot be cut into tokens. -/
inductive LexicalFault
  /-- A quote without its partner in the line. -/
  | unclosedString
  /-- A character that begins no token. -/
  | illegal (c : Char)
  /-- A line less wide than its block and as wide as none of those around it. -/
  | dedent
  deriving DecidableEq, Repr

/-- A lexical fault in words. -/
def LexicalFault.message : LexicalFault → String
  | .unclosedString => "cadena sin cerrar"
  | .illegal c => "carácter ilegal " ++ quoted (String.singleton c)
  | .dedent => "la indentación no coincide con ningún nivel exterior"

/-- The fault of a character that begins no token. -/
def LexicalFault.ofChar (c : Char) : LexicalFault :=
  if c = '"' ∨ c = '\'' then .unclosedString else .illegal c

/-- A lexical fault at an offset of a source. -/
def LexicalFault.diagnostic (f : LexicalFault) (text : List Char) (offset : Nat) : Diagnostic :=
  ⟨.lexical, f.message, some (.ofOffset text offset), []⟩

/-- What is known of the layout of a source between two lexemes. -/
structure Layout where
  /-- The widths of the open blocks, innermost first. -/
  levels : List Nat
  /-- How many parentheses are open. -/
  depth : Nat
  /-- Whether the next token starts a logical line. -/
  fresh : Bool
  deriving DecidableEq, Repr

namespace Layout

/-- The layout before the first lexeme. -/
def initial : Layout :=
  ⟨[], 0, true⟩

/-- The width of the innermost open block. -/
def level (levels : List Nat) : Nat :=
  levels.headD 0

/-- How many parentheses are open after a token of a given kind. A closing one without a partner
closes nothing. -/
def depthAfter (depth : Nat) : Kind → Nat
  | .openParen => depth + 1
  | .closeParen => depth - 1
  | _ => depth

/-- A token that is not written, before a lexeme. -/
def unwritten (kind : Kind) (t : Lexeme) : Lexeme :=
  ⟨kind, "", t.line, t.offset⟩

/-- What the start of a logical line of a given width announces, and the blocks open then; nothing
is open in the way it should be when the width is none of an outer block. -/
def startLine (levels : List Nat) (width : Nat) (t : Lexeme) :
    List Lexeme × Option (List Nat) :=
  if level levels < width then ([unwritten .indent t], some (width :: levels))
  else
    let closed := levels.takeWhile (width < ·)
    let kept := levels.dropWhile (width < ·)
    (closed.map fun _ ↦ unwritten .dedent t, if level kept = width then some kept else none)

/-- What one lexeme adds to the stream, and the layout behind it or the fault that it shows. -/
def take (text : List Char) (l : Layout) (t : Lexeme) : List Lexeme × Except LexicalFault Layout :=
  if t.kind = .newline then
    if l.depth > 0 ∨ l.fresh then ([], .ok l) else ([t], .ok { l with fresh := true })
  else
    let depth := depthAfter l.depth t.kind
    if l.fresh then
      match startLine l.levels (indentWidth text t.offset) t with
      | (announced, some levels) => (announced ++ [t], .ok ⟨levels, depth, false⟩)
      | (announced, none) => (announced, .error .dedent)
    else ([t], .ok ⟨l.levels, depth, false⟩)

/-- What the end of the source adds: the end of a line still open, and of every open block. -/
def close (l : Layout) (line offset : Nat) : List Lexeme :=
  (if l.fresh then [] else [⟨.newline, "", line, offset⟩]) ++
    l.levels.map fun _ ↦ ⟨.dedent, "", line, offset⟩

end Layout

end Sangria
