import Sangria.Token.Kind

/-!
# The grammar

Productions are an inductive type whose families (one production for each connective, each sign,
each binding, each kind of literal) are constructors with a parameter. `Production.lhs` and
`Production.rhs` are the two sides. The grammar of expressions is ambiguous; `Precedence` says which
reading is meant.

A block ends where its indentation does, so an `else` or `elif` always belongs to the branch whose
block was just closed.
-/

namespace Sangria

/-- The kinds of phrase. -/
inductive Nonterminal
  /-- A whole source. -/
  | program
  /-- One statement or more. -/
  | statements
  /-- A statement with its end. -/
  | statement
  /-- A statement that ends with its line. -/
  | simple
  /-- A name bound. -/
  | assignment
  /-- The sign that binds it. -/
  | mark
  /-- An expression for its value. -/
  | bare
  /-- A statement that ends with a block. -/
  | compound
  /-- A function. -/
  | definition
  /-- What stands between the parentheses of a function. -/
  | paramList
  /-- One parameter or more. -/
  | params
  /-- A branch. -/
  | branch
  /-- What follows the block of a branch. -/
  | otherwise
  /-- An indented block. -/
  | block
  /-- An expression. -/
  | expr
  /-- An expression that no operator splits. -/
  | atom
  /-- A call. -/
  | call
  /-- What stands between the parentheses of a call. -/
  | argList
  /-- One argument or more. -/
  | args
  /-- A literal. -/
  | literal
  /-- No token at all. -/
  | nothing
  deriving DecidableEq, Repr

/-- What a production is made of. -/
inductive GrammarSymbol
  /-- A token of a kind. -/
  | token (k : Kind)
  /-- A phrase of a kind. -/
  | phrase (n : Nonterminal)
  deriving DecidableEq, Repr

/-- The productions, each named for what it makes. -/
inductive Production
  /-- A source is its statements. -/
  | program
  /-- Statements and one more. -/
  | nextStatement
  /-- A single statement. -/
  | firstStatement
  /-- A statement with its line end. -/
  | simple
  /-- A statement with its block. -/
  | compound
  /-- A binding as a statement. -/
  | simpleAssignment
  /-- An expression as a statement. -/
  | simpleBare
  /-- A name, a binding sign and an expression. -/
  | assignment
  /-- A binding sign. -/
  | mark (b : Binding)
  /-- An expression for its value. -/
  | bare
  /-- A function as a statement. -/
  | compoundDefinition
  /-- A branch as a statement. -/
  | compoundBranch
  /-- A function: its name, parameters and block. -/
  | definition
  /-- Parameters between parentheses. -/
  | someParams
  /-- No parameters. -/
  | noParams
  /-- A single parameter. -/
  | firstParam
  /-- Parameters and one more. -/
  | nextParam
  /-- A condition, its block, and what follows. -/
  | branch
  /-- A further condition, its block, and what follows. -/
  | elif
  /-- A block for when no condition holds. -/
  | otherwise
  /-- Nothing after a block. -/
  | noOtherwise
  /-- Statements between a line end with deeper indentation and the return from it. -/
  | block
  /-- Two expressions and what joins them. -/
  | join (c : Connective)
  /-- A negated expression. -/
  | negation
  /-- An expression behind a sign. -/
  | signed (s : Sign)
  /-- An atom as an expression. -/
  | atom
  /-- A literal as an atom. -/
  | literalAtom
  /-- An expression in parentheses. -/
  | parenthesized
  /-- A call as an atom. -/
  | callAtom
  /-- A name as an atom. -/
  | nameAtom
  /-- A call: the name and the arguments. -/
  | call
  /-- Arguments between parentheses. -/
  | someArgs
  /-- No arguments. -/
  | noArgs
  /-- A single argument. -/
  | firstArg
  /-- Arguments and one more. -/
  | nextArg
  /-- A literal. -/
  | literal (l : LiteralKind)
  /-- No token at all. -/
  | nothing
  deriving DecidableEq, Repr

/-- The operator of a sign's token, which is also an operator on two values. -/
def Sign.kind : Sign → Kind
  | .neg => .op .sub
  | .pos => .op .add

namespace Production

/-- The kind of phrase that a production makes. -/
def lhs : Production → Nonterminal
  | program => .program
  | nextStatement => .statements
  | firstStatement => .statements
  | simple => .statement
  | compound => .statement
  | simpleAssignment => .simple
  | simpleBare => .simple
  | assignment => .assignment
  | mark _ => .mark
  | bare => .bare
  | compoundDefinition => .compound
  | compoundBranch => .compound
  | definition => .definition
  | someParams => .paramList
  | noParams => .paramList
  | firstParam => .params
  | nextParam => .params
  | branch => .branch
  | elif => .otherwise
  | otherwise => .otherwise
  | noOtherwise => .otherwise
  | block => .block
  | join _ => .expr
  | negation => .expr
  | signed _ => .expr
  | atom => .expr
  | literalAtom => .atom
  | parenthesized => .atom
  | callAtom => .atom
  | nameAtom => .atom
  | call => .call
  | someArgs => .argList
  | noArgs => .argList
  | firstArg => .args
  | nextArg => .args
  | literal _ => .literal
  | nothing => .nothing

/-- What a production makes its phrase of, in order. -/
def rhs : Production → List GrammarSymbol
  | program => [.phrase .statements]
  | nextStatement => [.phrase .statements, .phrase .statement]
  | firstStatement => [.phrase .statement]
  | simple => [.phrase .simple, .token .newline]
  | compound => [.phrase .compound]
  | simpleAssignment => [.phrase .assignment]
  | simpleBare => [.phrase .bare]
  | assignment => [.token .name, .phrase .mark, .phrase .expr]
  | mark b => [.token (.binding b)]
  | bare => [.phrase .expr]
  | compoundDefinition => [.phrase .definition]
  | compoundBranch => [.phrase .branch]
  | definition => [.token .defWord, .token .name, .token .openParen, .phrase .paramList,
      .token .closeParen, .token .colon, .phrase .block]
  | someParams => [.phrase .params]
  | noParams => [.phrase .nothing]
  | firstParam => [.token .name]
  | nextParam => [.phrase .params, .token .comma, .token .name]
  | branch => [.token .ifWord, .phrase .expr, .token .colon, .phrase .block, .phrase .otherwise]
  | elif => [.token .elifWord, .phrase .expr, .token .colon, .phrase .block, .phrase .otherwise]
  | otherwise => [.token .elseWord, .token .colon, .phrase .block]
  | noOtherwise => [.phrase .nothing]
  | block => [.token .newline, .token .indent, .phrase .statements, .token .dedent]
  | join c => [.phrase .expr, .token (.connective c), .phrase .expr]
  | negation => [.token .notWord, .phrase .expr]
  | signed s => [.token s.kind, .phrase .expr]
  | atom => [.phrase .atom]
  | literalAtom => [.phrase .literal]
  | parenthesized => [.token .openParen, .phrase .expr, .token .closeParen]
  | callAtom => [.phrase .call]
  | nameAtom => [.token .name]
  | call => [.token .name, .token .openParen, .phrase .argList, .token .closeParen]
  | someArgs => [.phrase .args]
  | noArgs => [.phrase .nothing]
  | firstArg => [.phrase .expr]
  | nextArg => [.phrase .args, .token .comma, .phrase .expr]
  | literal l => [.token (.literal l)]
  | nothing => []

end Production

/-! ### Precedence -/

/-- What to do between two operators of one level. -/
inductive Associativity
  /-- The left one first. -/
  | left
  /-- The right one first. -/
  | right
  /-- They do not stand side by side. -/
  | neither
  deriving DecidableEq, Repr

/-- How strongly an operator binds, and how operators of its level are read side by side. -/
structure Precedence where
  /-- The level; higher ones bind more strongly. -/
  level : Nat
  /-- The reading side by side. -/
  associativity : Associativity
  deriving DecidableEq, Repr

/-- The precedence of an operator on two values. -/
def Operator.precedence : Operator → Precedence
  | .eq | .ne | .lt | .gt | .le | .ge => ⟨4, .neither⟩
  | .add | .sub => ⟨5, .left⟩
  | .mul | .div | .floorDiv | .mod => ⟨6, .left⟩
  | .pow => ⟨8, .right⟩

/-- The precedence of a connective. -/
def Connective.precedence : Connective → Precedence
  | .or => ⟨1, .left⟩
  | .and => ⟨2, .left⟩
  | .apply op => op.precedence

/-- The precedence of the word that negates. -/
def negationPrecedence : Precedence := ⟨3, .right⟩

/-- The precedence of a sign: above products and below powers. -/
def signPrecedence : Precedence := ⟨7, .right⟩

/-- Whether what has been read so far is put together before a connective, or the connective is
taken first, or neither is allowed. -/
inductive Choice
  /-- Put together what has been read. -/
  | reduce
  /-- Take the connective. -/
  | shift
  /-- Neither. -/
  | neither
  deriving DecidableEq, Repr

/-- The choice between an operator whose operand has been read and the connective behind it. -/
def Precedence.choose (p : Precedence) (c : Connective) : Choice :=
  if p.level < c.precedence.level then .shift
  else if c.precedence.level < p.level then .reduce
  else match c.precedence.associativity with
    | .left => .reduce
    | .right => .shift
    | .neither => .neither

end Sangria
