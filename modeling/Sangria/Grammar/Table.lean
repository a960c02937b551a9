import Sangria.Grammar.State

/-!
# The parsing table

What to do in a state with the next token in sight (`action`), and the state behind a phrase that
has been put together (`goto`). The table is that of the grammar's LALR(1) automaton with the
conflicts between operators settled by precedence: a phrase is put together whenever the next token
can follow it somewhere in a program, and where neither reading of two operators is allowed there is
no entry.
-/

namespace Sangria

/-- What to do next. -/
inductive Action
  /-- Take the token and go on in a state. -/
  | shift (s : State)
  /-- Put a phrase together. -/
  | reduce (p : Production)
  /-- End with a whole program. -/
  | accept
  deriving DecidableEq, Repr

/-- The state behind a token that begins an expression. -/
def exprStart? : Kind → Option State
  | .name => some .name
  | .literal l => some (.literal l)
  | .openParen => some (.before .parenthesis)
  | .notWord => some (.before .negated)
  | .connective (.apply .sub) => some (.before (.signed .neg))
  | .connective (.apply .add) => some (.before (.signed .pos))
  | _ => none

/-- The state behind a token that begins a statement. -/
def statementStart? : Kind → Option State
  | .name => some .leadingName
  | .defWord => some .defWord
  | .ifWord => some (.before .condition)
  | k => exprStart? k

/-- Whether a token can stand behind an expression and is no connective. -/
def endsExpr (k : Kind) : Bool :=
  k = .newline || k = .colon || k = .closeParen || k = .comma

/-- Whether a token can stand behind an expression. -/
def followsExpr : Kind → Bool
  | .connective _ => true
  | k => endsExpr k

/-- Whether a token can stand behind a statement. -/
def followsStatement (k : Kind) : Bool :=
  k = .eof || k = .dedent || (statementStart? k).isSome

/-- Put a phrase together if the next token allows it. -/
def reduceIf (allowed : Bool) (p : Production) : Option Action :=
  if allowed then some (.reduce p) else none

/-- Take the one token that is allowed. -/
def expect (wanted k : Kind) (s : State) : Option Action :=
  if k = wanted then some (.shift s) else none

/-- What to do with an expression in a slot before a token that is no connective. -/
def Slot.close : Slot → Kind → Option Action
  | .assigned, k => reduceIf (k = .newline) .assignment
  | .condition, k => expect .colon k .ifColon
  | .furtherCondition, k => expect .colon k .elifColon
  | .parenthesis, k => expect .closeParen k .parenClose
  | .firstArg, k => reduceIf (k = .comma || k = .closeParen) .firstArg
  | .nextArg, k => reduceIf (k = .comma || k = .closeParen) .nextArg
  | .right c, k => reduceIf (endsExpr k) (.join c)
  | .negated, k => reduceIf (endsExpr k) .negation
  | .signed s, k => reduceIf (endsExpr k) (.signed s)

/-- What to do with an expression in a slot before a connective. -/
def Slot.continue (s : Slot) (c : Connective) : Option Action :=
  match s.operation? with
  | none => some (.shift (.before (.right c)))
  | some (p, precedence) =>
    match precedence.choose c with
    | .shift => some (.shift (.before (.right c)))
    | .reduce => some (.reduce p)
    | .neither => none

/-- What to do in a state with a token of a kind in sight; nothing if the token is refused. -/
def action (s : State) (k : Kind) : Option Action :=
  match s with
  | .start => (statementStart? k).map .shift
  | .statements =>
    if k = .eof then some (.reduce .program) else (statementStart? k).map .shift
  | .complete => if k = .eof then some .accept else none
  | .firstStatement => reduceIf (followsStatement k) .firstStatement
  | .nextStatement => reduceIf (followsStatement k) .nextStatement
  | .simple => expect .newline k .simpleEnd
  | .simpleEnd => reduceIf (followsStatement k) .simple
  | .compound => reduceIf (followsStatement k) .compound
  | .assignment => reduceIf (k = .newline) .simpleAssignment
  | .bare => reduceIf (k = .newline) .simpleBare
  | .definition => reduceIf (followsStatement k) .compoundDefinition
  | .branch => reduceIf (followsStatement k) .compoundBranch
  | .leadingName =>
    match k with
    | .binding b => some (.shift (.mark b))
    | .openParen => some (.shift (.before .firstArg))
    | .connective _ => some (.reduce .nameAtom)
    | .newline => some (.reduce .nameAtom)
    | _ => none
  | .mark b => reduceIf (exprStart? k).isSome (.mark b)
  | .defWord => expect .name k .defName
  | .defName => expect .openParen k .defOpen
  | .defOpen =>
    if k = .name then some (.shift .firstParam) else reduceIf (k = .closeParen) .nothing
  | .firstParam => reduceIf (k = .comma || k = .closeParen) .firstParam
  | .params =>
    if k = .comma then some (.shift .paramComma) else reduceIf (k = .closeParen) .someParams
  | .noParams => reduceIf (k = .closeParen) .noParams
  | .paramComma => expect .name k .nextParam
  | .nextParam => reduceIf (k = .comma || k = .closeParen) .nextParam
  | .paramList => expect .closeParen k .defClose
  | .defClose => expect .colon k .defColon
  | .defColon => expect .newline k .blockLine
  | .defBlock => reduceIf (followsStatement k) .definition
  | .ifColon => expect .newline k .blockLine
  | .elifColon => expect .newline k .blockLine
  | .elseColon => expect .newline k .blockLine
  | .ifBlock | .elifBlock =>
    match k with
    | .elifWord => some (.shift (.before .furtherCondition))
    | .elseWord => some (.shift .elseWord)
    | k => reduceIf (followsStatement k) .nothing
  | .elseWord => expect .colon k .elseColon
  | .elseBlock => reduceIf (followsStatement k) .otherwise
  | .noElse => reduceIf (followsStatement k) .noOtherwise
  | .ifOtherwise => reduceIf (followsStatement k) .branch
  | .elifOtherwise => reduceIf (followsStatement k) .elif
  | .blockLine => expect .indent k .blockStart
  | .blockStart => (statementStart? k).map .shift
  | .blockStatements =>
    if k = .dedent then some (.shift .blockEnd) else (statementStart? k).map .shift
  | .blockEnd => reduceIf (k = .elifWord || k = .elseWord || followsStatement k) .block
  | .before .firstArg =>
    if k = .closeParen then some (.reduce .nothing) else (exprStart? k).map .shift
  | .before _ => (exprStart? k).map .shift
  | .after slot =>
    match k with
    | .connective c => slot.continue c
    | k => slot.close k
  | .bareExpr =>
    match k with
    | .connective c => some (.shift (.before (.right c)))
    | k => reduceIf (k = .newline) .bare
  | .name =>
    if k = .openParen then some (.shift (.before .firstArg))
    else reduceIf (followsExpr k) .nameAtom
  | .parenClose => reduceIf (followsExpr k) .parenthesized
  | .literal l => reduceIf (followsExpr k) (.literal l)
  | .literalAtom => reduceIf (followsExpr k) .literalAtom
  | .atom => reduceIf (followsExpr k) .atom
  | .callAtom => reduceIf (followsExpr k) .callAtom
  | .args =>
    if k = .comma then some (.shift (.before .nextArg)) else reduceIf (k = .closeParen) .someArgs
  | .noArgs => reduceIf (k = .closeParen) .noArgs
  | .argList => expect .closeParen k .callClose
  | .callClose => reduceIf (followsExpr k) .call

/-! ### Behind a phrase -/

/-- The state behind a phrase inside an expression, where an expression leads to a given state. -/
def gotoExpr (whole : State) : Nonterminal → Option State
  | .expr => some whole
  | .atom => some .atom
  | .literal => some .literalAtom
  | .call => some .callAtom
  | _ => none

/-- The state behind a phrase inside a statement, where a statement leads to a given state. -/
def gotoStatement (whole : State) : Nonterminal → Option State
  | .statement => some whole
  | .simple => some .simple
  | .compound => some .compound
  | .assignment => some .assignment
  | .bare => some .bare
  | .definition => some .definition
  | .branch => some .branch
  | n => gotoExpr .bareExpr n

/-- The state behind a phrase that was put together in a state. -/
def goto (s : State) (n : Nonterminal) : Option State :=
  match s with
  | .start =>
    match n with
    | .program => some .complete
    | .statements => some .statements
    | n => gotoStatement .firstStatement n
  | .statements => gotoStatement .nextStatement n
  | .blockStart =>
    match n with
    | .statements => some .blockStatements
    | n => gotoStatement .firstStatement n
  | .blockStatements => gotoStatement .nextStatement n
  | .leadingName => if n = .mark then some (.before .assigned) else none
  | .defOpen =>
    match n with
    | .params => some .params
    | .paramList => some .paramList
    | .nothing => some .noParams
    | _ => none
  | .defColon => if n = .block then some .defBlock else none
  | .ifColon => if n = .block then some .ifBlock else none
  | .elifColon => if n = .block then some .elifBlock else none
  | .elseColon => if n = .block then some .elseBlock else none
  | .ifBlock =>
    match n with
    | .otherwise => some .ifOtherwise
    | .nothing => some .noElse
    | _ => none
  | .elifBlock =>
    match n with
    | .otherwise => some .elifOtherwise
    | .nothing => some .noElse
    | _ => none
  | .before .firstArg =>
    match n with
    | .args => some .args
    | .argList => some .argList
    | .nothing => some .noArgs
    | n => gotoExpr (.after .firstArg) n
  | .before slot => gotoExpr (.after slot) n
  | _ => none

/-- The names of the kinds of token that a state does not refuse, in alphabetical order. -/
def State.expected (s : State) : List String :=
  (Kind.all.filter fun k ↦ (action s k).isSome).map Kind.expectedName

end Sangria
