import Sangria.Diagnostic
import Sangria.Token.Munch

/-!
# Reading lexemes off a source

A `Scanner` stands at an offset of a source and holds what follows it. Reading skips the gap there,
takes the token behind it and says where the scanner stands then. Lines are counted only where a
newline token is taken, which is the only kind of token that holds newlines.

A scanner that has found the end stands one character behind it.
-/

namespace Sangria

/-- A token as it was cut from a source. -/
structure Lexeme where
  /-- The kind. -/
  kind : Kind
  /-- The text, exactly as written; empty where the token is not written at all. -/
  text : String
  /-- The line it starts in. -/
  line : Nat
  /-- The offset it starts at. -/
  offset : Nat
  deriving DecidableEq, Repr

/-- A place in a source that is being cut into tokens. -/
structure Scanner where
  /-- What is still to be read. -/
  rest : List Char
  /-- How many characters lie before it. -/
  offset : Nat
  /-- One more than the newlines taken so far. -/
  line : Nat
  deriving DecidableEq, Repr

/-- What a scanner finds, and the scanner that stands behind it. -/
inductive Scan
  /-- A token. -/
  | lexeme (found : Lexeme) (next : Scanner)
  /-- A character that begins no token. -/
  | illegal (c : Char) (next : Scanner)
  /-- Nothing more. -/
  | finished (next : Scanner)
  deriving DecidableEq, Repr

namespace Scanner

/-- The scanner at the start of a source. -/
def ofText (text : List Char) : Scanner :=
  ⟨text, 0, 1⟩

/-- The scanner `n` characters further on, in the same line. -/
def skip (s : Scanner) (n : Nat) : Scanner :=
  ⟨s.rest.drop n, s.offset + n, s.line⟩

/-- Skip the gap and read one token. -/
def scan (s : Scanner) : Scan :=
  let s := s.skip (gap s.rest)
  match s.rest with
  | [] => .finished (s.skip 1)
  | c :: _ =>
    match munch s.rest with
    | none => .illegal c s
    | some (kind, length) =>
      let text := s.rest.take length
      let next := s.skip length
      .lexeme ⟨kind, String.ofList text, s.line, s.offset⟩
        { next with line := s.line + if kind = .newline then length else 0 }

end Scanner

end Sangria
