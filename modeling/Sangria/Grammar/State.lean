import Sangria.Grammar.Production

/-!
# What a reader of tokens can know

A state says how far the productions that may be under way have been read. Where an expression is
wanted, what wants it is a `Slot`; the state before the expression and the state behind it carry the
same slot, so what happens to an expression is said once for all places it can stand in.
-/

namespace Sangria

/-- What wants an expression, other than a statement that is one. -/
inductive Slot
  /-- A name to be bound. -/
  | assigned
  /-- A branch. -/
  | condition
  /-- A further condition of a branch. -/
  | furtherCondition
  /-- An opening parenthesis. -/
  | parenthesis
  /-- The opening parenthesis of a call. -/
  | firstArg
  /-- A comma between arguments. -/
  | nextArg
  /-- A connective behind its left side. -/
  | right (c : Connective)
  /-- The word that negates. -/
  | negated
  /-- A sign. -/
  | signed (s : Sign)
  deriving DecidableEq, Repr

/-- The states. -/
inductive State
  /-- Nothing has been read. -/
  | start
  /-- Statements of a program. -/
  | statements
  /-- A whole program. -/
  | complete
  /-- The first statement of a list. -/
  | firstStatement
  /-- A list of statements and one more. -/
  | nextStatement
  /-- A simple statement before its line end. -/
  | simple
  /-- A simple statement with its line end. -/
  | simpleEnd
  /-- A compound statement. -/
  | compound
  /-- A binding. -/
  | assignment
  /-- An expression as a statement. -/
  | bare
  /-- A function. -/
  | definition
  /-- A branch. -/
  | branch
  /-- A name that begins a statement. -/
  | leadingName
  /-- A binding sign behind it. -/
  | mark (b : Binding)
  /-- The word that defines a function. -/
  | defWord
  /-- The function's name. -/
  | defName
  /-- The parenthesis behind it. -/
  | defOpen
  /-- The first parameter. -/
  | firstParam
  /-- Parameters. -/
  | params
  /-- No parameters. -/
  | noParams
  /-- A comma behind parameters. -/
  | paramComma
  /-- A further parameter. -/
  | nextParam
  /-- All parameters. -/
  | paramList
  /-- The closing parenthesis behind them. -/
  | defClose
  /-- The colon behind it. -/
  | defColon
  /-- The function's block. -/
  | defBlock
  /-- The colon behind a condition. -/
  | ifColon
  /-- The block behind it. -/
  | ifBlock
  /-- The colon behind a further condition. -/
  | elifColon
  /-- The block behind it. -/
  | elifBlock
  /-- The word before the block for when no condition holds. -/
  | elseWord
  /-- The colon behind it. -/
  | elseColon
  /-- The block behind it. -/
  | elseBlock
  /-- Nothing behind a block. -/
  | noElse
  /-- A branch with what follows its block. -/
  | ifOtherwise
  /-- A further condition with what follows its block. -/
  | elifOtherwise
  /-- The line end before a block. -/
  | blockLine
  /-- The indentation of a block. -/
  | blockStart
  /-- Statements of a block. -/
  | blockStatements
  /-- The end of a block. -/
  | blockEnd
  /-- A place for an expression. -/
  | before (s : Slot)
  /-- An expression in its place. -/
  | after (s : Slot)
  /-- An expression that began a statement. -/
  | bareExpr
  /-- A name in an expression. -/
  | name
  /-- A parenthesis closed behind an expression. -/
  | parenClose
  /-- A literal's token. -/
  | literal (l : LiteralKind)
  /-- A literal. -/
  | literalAtom
  /-- An atom. -/
  | atom
  /-- A call. -/
  | callAtom
  /-- Arguments. -/
  | args
  /-- No arguments. -/
  | noArgs
  /-- All arguments. -/
  | argList
  /-- The closing parenthesis behind them. -/
  | callClose
  deriving DecidableEq, Repr

/-- The production that an expression in a slot completes, and the precedence it has, where the slot
belongs to an operator. -/
def Slot.operation? : Slot → Option (Production × Precedence)
  | .right c => some (.join c, c.precedence)
  | .negated => some (.negation, negationPrecedence)
  | .signed s => some (.signed s, signPrecedence)
  | _ => none

end Sangria
