import Sangria.Grammar.Reader
import Sangria.Token.Stream

/-!
# Parsing a source

A parse takes the tokens of a source one after the other and ends with the program, at the first
token that is refused, at a fault in the source's tokens, or at an integer literal of too many
digits, whichever comes first. A fault in the tokens is met where the token in its place is asked
for, so nothing behind a refused token matters.

A source is a `String`, so a text with surrogates in it is no source here. What is read from a file
never holds one; of a source that is put together in another way, with surrogates in it, nothing is
said.

A parse leaves one trace besides its result: whether the last real literal that it came upon was too
large for a real number. `parseChecked` gives both; `parseChecked_fst` says that its result is that
of `parse`.
-/

namespace Sangria

/-- Why a source has no program. -/
inductive ParseFault
  /-- A failure to be reported. -/
  | reported (d : Diagnostic)
  /-- An integer literal has too many digits, as many as given. -/
  | tooLong (digits : Nat)
  /-- The reader does not hold what its table relies on. -/
  | stuck
  deriving DecidableEq, Repr

/-- The token that stands for the end of a source. -/
def eofLexeme (text : List Char) : Lexeme :=
  ⟨.eof, "", 0, text.length⟩

/-- The diagnostic for a token that a state refuses. The end of the source, and the line end that is
announced there, are both an end that came too soon. -/
def refusal (text : List Char) (s : State) (t : Lexeme) : Diagnostic :=
  let early := t.kind = .eof ∨ (t.kind = .newline ∧ t.text = "")
  let message :=
    if early then "fin de entrada inesperado"
    else "token inesperado " ++ t.kind.describe t.text
  ⟨.syntactic, message, some (.ofOffset text t.offset), s.expected⟩

/-- A fault in reading a token, as a fault in parsing. -/
def ReadFault.toParseFault (text : List Char) (t : Lexeme) : ReadFault → ParseFault
  | .refused s => .reported (refusal text s t)
  | .tooLong digits => .tooLong digits
  | .stuck => .stuck

/-- Read what a stream delivers, and then the end of the source. -/
def readProgram (text : List Char) : List Delivery → Stack → Except ParseFault Block
  | [], stack =>
    let eof := eofLexeme text
    match stack.feed text eof with
    | .ok (.complete b) => .ok b
    | .ok (.taken _) => .error .stuck
    | .error f => .error (f.toParseFault text eof)
  | .error d :: _, _ => .error (.reported d)
  | .ok t :: rest, stack =>
    match stack.feed text t with
    | .ok (.taken stack) => readProgram text rest stack
    | .ok (.complete _) => .error .stuck
    | .error f => .error (f.toParseFault text t)

/-- The program of a source. -/
def parse (source : String) : Except ParseFault Block :=
  let text := source.toList
  readProgram text (TokenStream.ofText text).drain.1 []

/-! ### Real literals -/

/-- The real literal on top of a reader that is put together before a token, if there is one. -/
def Stack.realBefore? (stack : Stack) (next : Kind) : Option Float :=
  match stack with
  | ⟨.literal .float, .token t, _⟩ :: _ =>
    if followsExpr next then (readDecimal t.text.toList).map (·.toReal false) else none
  | _ => none

/-- Read what a stream delivers, as `readProgram` does, and keep the last real literal come upon,
where one was found before. -/
def readChecked (text : List Char) :
    Option Float → List Delivery → Stack → Except ParseFault Block × Option Float
  | found, [], stack => (readProgram text [] stack, (stack.realBefore? .eof).or found)
  | found, .error d :: _, _ => (.error (.reported d), found)
  | found, .ok t :: rest, stack =>
    let found := (stack.realBefore? t.kind).or found
    match stack.feed text t with
    | .ok (.taken stack) => readChecked text found rest stack
    | .ok (.complete _) => (.error .stuck, found)
    | .error f => (.error (f.toParseFault text t), found)

/-- Keeping the literals does not change what is read. -/
theorem readChecked_fst (text : List Char) (found : Option Float) (deliveries : List Delivery)
    (stack : Stack) :
    (readChecked text found deliveries stack).1 = readProgram text deliveries stack := by
  induction deliveries generalizing found stack with
  | nil => rfl
  | cons d rest ih =>
    cases d with
    | error d => rfl
    | ok t =>
      rw [readChecked, readProgram]
      split
      · exact ih _ _
      · rfl
      · rfl

/-- The program of a source, and whether the last real literal in it is too large, if the parse
comes upon one. -/
def parseChecked (source : String) : Except ParseFault Block × Option Bool :=
  let text := source.toList
  let (program, found) := readChecked text none (TokenStream.ofText text).drain.1 []
  (program, found.map (·.isInf))

/-- The program of a source is that of its parse. -/
theorem parseChecked_fst (source : String) : (parseChecked source).1 = parse source :=
  readChecked_fst _ none _ []

end Sangria
