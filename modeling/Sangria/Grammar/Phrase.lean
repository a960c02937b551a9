import Sangria.Grammar.Production
import Sangria.Number.Numeral
import Sangria.Program
import Sangria.Text.Escape
import Sangria.Token.Scanner

/-!
# What phrases mean

A phrase that has been read stands for a `Meaning`: a token for itself, an expression for its tree,
and so on. `build` makes the meaning of a phrase from those of its parts. It fails on an integer
literal of too many digits; parts of another shape than the production asks for have no meaning
together.
-/

namespace Sangria

/-- The meaning of a phrase. -/
inductive Meaning
  /-- A token. -/
  | token (t : Lexeme)
  /-- No token. -/
  | nothing
  /-- An expression, or a part of one. -/
  | expr (e : Expr)
  /-- Arguments. -/
  | args (es : List Expr)
  /-- Parameters. -/
  | params (xs : List String)
  /-- A binding sign. -/
  | binding (b : Binding)
  /-- A statement without its position. -/
  | action (s : Stmt)
  /-- A statement. -/
  | statement (s : Located Stmt)
  /-- Statements. -/
  | block (b : Block)
  /-- What follows the block of a branch. -/
  | otherwise (b : Option Block)

/-- Why parts have no meaning together. -/
inductive BuildFault
  /-- An integer literal has too many digits, as many as given. -/
  | tooLong (digits : Nat)
  /-- The parts are not those that the production asks for. -/
  | misshapen
  deriving DecidableEq, Repr

/-- The value of a literal's token. -/
def literalValue (l : LiteralKind) (text : List Char) : Except BuildFault Literal :=
  match l with
  | .int =>
    if maxDigits < text.length then .error (.tooLong text.length)
    else .ok (.int (valueInBase 10 text))
  | .float =>
    match readDecimal text with
    | some d => .ok (.real (d.toReal false))
    | none => .error .misshapen
  | .string => .ok (.text (String.ofList (unescape (text.drop 1).dropLast)))
  | .trueWord => .ok (.bool true)
  | .falseWord => .ok (.bool false)
  | .noneWord => .ok .none

/-- The meaning of a phrase that starts at an offset of a source, from the meanings of its parts. -/
def build (text : List Char) (start : Nat) : Production → List Meaning → Except BuildFault Meaning
  | .program, [.block b] => .ok (.block b)
  | .nextStatement, [.block b, .statement s] => .ok (.block (b ++ [s]))
  | .firstStatement, [.statement s] => .ok (.block [s])
  | .simple, [.action s, .token _] => .ok (.statement ⟨.ofOffset text start, s⟩)
  | .compound, [.action s] => .ok (.statement ⟨.ofOffset text start, s⟩)
  | .simpleAssignment, [.action s] => .ok (.action s)
  | .simpleBare, [.action s] => .ok (.action s)
  | .assignment, [.token x, .binding b, .expr e] =>
    .ok (.action (.assign x.text (b.operator?.map .known) e))
  | .mark b, [.token _] => .ok (.binding b)
  | .bare, [.expr e] => .ok (.action (.eval e))
  | .compoundDefinition, [.action s] => .ok (.action s)
  | .compoundBranch, [.action s] => .ok (.action s)
  | .definition, [.token _, .token f, .token _, .params xs, .token _, .token _, .block b] =>
    .ok (.action (.define f.text xs b))
  | .someParams, [.params xs] => .ok (.params xs)
  | .noParams, [.nothing] => .ok (.params [])
  | .firstParam, [.token x] => .ok (.params [x.text])
  | .nextParam, [.params xs, .token _, .token x] => .ok (.params (xs ++ [x.text]))
  | .branch, [.token _, .expr c, .token _, .block b, .otherwise o] =>
    .ok (.action (.branch c b o))
  | .elif, [.token _, .expr c, .token _, .block b, .otherwise o] =>
    .ok (.otherwise (some [⟨.ofOffset text start, .branch c b o⟩]))
  | .otherwise, [.token _, .token _, .block b] => .ok (.otherwise (some b))
  | .noOtherwise, [.nothing] => .ok (.otherwise none)
  | .block, [.token _, .token _, .block b, .token _] => .ok (.block b)
  | .join c, [.expr l, .token _, .expr r] => .ok (.expr (.join c l r))
  | .negation, [.token _, .expr e] => .ok (.expr (.not e))
  | .signed s, [.token _, .expr e] => .ok (.expr (.signed (.known s) e))
  | .atom, [.expr e] => .ok (.expr e)
  | .literalAtom, [.expr e] => .ok (.expr e)
  | .parenthesized, [.token _, .expr e, .token _] => .ok (.expr e)
  | .callAtom, [.expr e] => .ok (.expr e)
  | .nameAtom, [.token x] => .ok (.expr (.name x.text))
  | .call, [.token f, .token _, .args es, .token _] => .ok (.expr (.call f.text es))
  | .someArgs, [.args es] => .ok (.args es)
  | .noArgs, [.nothing] => .ok (.args [])
  | .firstArg, [.expr e] => .ok (.args [e])
  | .nextArg, [.args es, .token _, .expr e] => .ok (.args (es ++ [e]))
  | .literal l, [.token t] => (literalValue l t.text.toList).map fun v ↦ .expr (.literal v)
  | .nothing, [] => .ok .nothing
  | _, _ => .error .misshapen

end Sangria
