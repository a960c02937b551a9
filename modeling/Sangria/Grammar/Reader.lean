import Sangria.Grammar.Phrase
import Sangria.Grammar.Table

/-!
# Reading tokens into a program

A reader keeps the phrases read so far on a stack, each with the state behind it. `settle` puts
phrases together until the next token can be taken, the source is complete or the token is refused;
`feed` takes the token. A parse feeds the tokens in turn, so what a reader makes of a token depends
on the tokens before it alone.

Between two tokens a reader can put only so many phrases together as its stack is high, up to a
constant; `settleBound` is generous.
-/

namespace Sangria

/-- A phrase that has been read. -/
structure Cell where
  /-- The state behind it. -/
  state : State
  /-- What it means. -/
  meaning : Meaning
  /-- The offset of its first token. -/
  start : Nat

/-- The phrases read so far, the last one first. -/
abbrev Stack := List Cell

/-- The state behind all that has been read. -/
def Stack.state (stack : Stack) : State :=
  match stack with
  | [] => .start
  | c :: _ => c.state

/-- Why reading ends without a program. -/
inductive ReadFault
  /-- The state refuses the token. -/
  | refused (s : State)
  /-- An integer literal has too many digits, as many as given. -/
  | tooLong (digits : Nat)
  /-- The stack does not hold what the table relies on. -/
  | stuck
  deriving DecidableEq, Repr

/-- A fault in the meaning of a phrase as a fault in reading. -/
def BuildFault.toReadFault : BuildFault → ReadFault
  | .tooLong digits => .tooLong digits
  | .misshapen => .stuck

/-- Put the last phrases together as a production says. A phrase of no token starts where the next
token does. That shows in no position: only statements and further conditions are given one, and
these begin with a token. -/
def Stack.reduce (text : List Char) (next : Nat) (p : Production) (stack : Stack) :
    Except ReadFault Stack :=
  let count := p.rhs.length
  let parts := (stack.take count).reverse
  let rest : Stack := stack.drop count
  let start := match parts with
    | c :: _ => c.start
    | [] => next
  if parts.length < count then .error .stuck
  else match goto rest.state p.lhs, build text start p (parts.map (·.meaning)) with
    | none, _ => .error .stuck
    | some _, .error f => .error f.toReadFault
    | some s, .ok m => .ok (⟨s, m, start⟩ :: rest)

/-- A reader that can put no more phrases together. -/
inductive Settled
  /-- The token can be taken, and leads to a state. -/
  | ready (s : State) (stack : Stack)
  /-- The source is complete. -/
  | complete (program : Block)

/-- Put phrases together before a token, at most a number of times. -/
def settle (text : List Char) (t : Lexeme) : Nat → Stack → Except ReadFault Settled
  | 0, _ => .error .stuck
  | n + 1, stack =>
    match action stack.state t.kind with
    | none => .error (.refused stack.state)
    | some .accept =>
      match stack with
      | ⟨_, .block b, _⟩ :: _ => .ok (.complete b)
      | _ => .error .stuck
    | some (.shift s) => .ok (.ready s stack)
    | some (.reduce p) =>
      match stack.reduce text t.offset p with
      | .error f => .error f
      | .ok stack => settle text t n stack

/-- More than the number of phrases that can be put together between two tokens. -/
def Stack.settleBound (stack : Stack) : Nat :=
  8 * stack.length + 16

/-- A reader that has been given a token. -/
inductive Fed
  /-- It has taken the token. -/
  | taken (stack : Stack)
  /-- The source is complete. -/
  | complete (program : Block)

/-- Give a reader one token. -/
def Stack.feed (text : List Char) (stack : Stack) (t : Lexeme) : Except ReadFault Fed :=
  match settle text t stack.settleBound stack with
  | .ok (.ready s stack) => .ok (.taken (⟨s, .token t, t.offset⟩ :: stack))
  | .ok (.complete b) => .ok (.complete b)
  | .error f => .error f

end Sangria
