import Sangria.Text.Quoted

/-!
# Kinds of token

The closed set of token kinds. The signs that join two expressions are one family, `Connective`, and
the signs that bind a name are another, `Binding`, so whatever treats all members of a family alike
can say so once.

`Kind.all` lists every kind in the order of the names that messages show, with the end of input
last. `Kind.pairwise_expectedName` says so: a list of expected kinds is a filter of `Kind.all`, and
is in order because that list is.
-/

namespace Sangria

/-- The operators on two values. -/
inductive Operator
  /-- Sum, and joining of texts. -/
  | add
  /-- Difference. -/
  | sub
  /-- Product, and repetition of a text. -/
  | mul
  /-- Quotient. -/
  | div
  /-- Quotient rounded down. -/
  | floorDiv
  /-- What rounding down leaves, and filling of a template. -/
  | mod
  /-- Power. -/
  | pow
  /-- Equality. -/
  | eq
  /-- Inequality. -/
  | ne
  /-- Less. -/
  | lt
  /-- Greater. -/
  | gt
  /-- At most. -/
  | le
  /-- At least. -/
  | ge
  deriving DecidableEq, Repr

/-- How an operator is written. -/
def Operator.symbol : Operator → String
  | .add => "+"
  | .sub => "-"
  | .mul => "*"
  | .div => "/"
  | .floorDiv => "//"
  | .mod => "%"
  | .pow => "**"
  | .eq => "=="
  | .ne => "!="
  | .lt => "<"
  | .gt => ">"
  | .le => "<="
  | .ge => ">="

/-- Every operator. -/
def Operator.all : List Operator :=
  [.add, .sub, .mul, .div, .floorDiv, .mod, .pow, .eq, .ne, .lt, .gt, .le, .ge]

/-- The operator that is written so, if there is one. -/
def Operator.ofSymbol? (symbol : String) : Option Operator :=
  Operator.all.find? (·.symbol = symbol)

/-- The signs that stand before one value. -/
inductive Sign
  /-- Negation. -/
  | neg
  /-- The sign that keeps a number. -/
  | pos
  deriving DecidableEq, Repr

/-- How a sign is written. -/
def Sign.symbol : Sign → String
  | .neg => "-"
  | .pos => "+"

/-- The sign that is written so, if there is one. -/
def Sign.ofSymbol? (symbol : String) : Option Sign :=
  [Sign.neg, Sign.pos].find? (·.symbol = symbol)

/-- What joins two expressions into one. -/
inductive Connective
  /-- An operator on both values. -/
  | apply (op : Operator)
  /-- The right side only if the left one holds. -/
  | and
  /-- The right side only if the left one does not hold. -/
  | or
  deriving DecidableEq, Repr

/-- What binds a name to a value. -/
inductive Binding
  /-- The value itself. -/
  | plain
  /-- The sum of the old value and the new one. -/
  | add
  /-- Their difference. -/
  | sub
  /-- Their product. -/
  | mul
  /-- Their quotient. -/
  | div
  deriving DecidableEq, Repr

/-- The operator that a binding applies to the old value, if it asks for it. -/
def Binding.operator? : Binding → Option Operator
  | .plain => none
  | .add => some .add
  | .sub => some .sub
  | .mul => some .mul
  | .div => some .div

/-- The kinds of literal. -/
inductive LiteralKind
  /-- Digits. -/
  | int
  /-- Digits with a point or an exponent. -/
  | float
  /-- Quoted text. -/
  | string
  /-- The word for truth. -/
  | trueWord
  /-- The word for falsehood. -/
  | falseWord
  /-- The word for no value. -/
  | noneWord
  deriving DecidableEq, Repr

/-- The kinds of token. -/
inductive Kind
  /-- A name that is no reserved word. -/
  | name
  /-- A literal. -/
  | literal (l : LiteralKind)
  /-- What joins two expressions. -/
  | connective (c : Connective)
  /-- What binds a name. -/
  | binding (b : Binding)
  /-- An opening parenthesis. -/
  | openParen
  /-- A closing parenthesis. -/
  | closeParen
  /-- A comma. -/
  | comma
  /-- A colon. -/
  | colon
  /-- The end of a logical line. -/
  | newline
  /-- The start of a deeper block. -/
  | indent
  /-- The end of a block. -/
  | dedent
  /-- The word that defines a function. -/
  | defWord
  /-- The word before a condition. -/
  | ifWord
  /-- The word before a further condition. -/
  | elifWord
  /-- The word before what happens otherwise. -/
  | elseWord
  /-- The word that negates. -/
  | notWord
  /-- The end of the source. -/
  | eof
  deriving DecidableEq, Repr

/-- The name of an operator's kind. -/
def Operator.kindName : Operator → String
  | .add => "PLUS"
  | .sub => "MINUS"
  | .mul => "TIMES"
  | .div => "DIVIDE"
  | .floorDiv => "FLOORDIV"
  | .mod => "MOD"
  | .pow => "POWER"
  | .eq => "EQEQ"
  | .ne => "NEQ"
  | .lt => "LT"
  | .gt => "GT"
  | .le => "LE"
  | .ge => "GE"

/-- The name of a binding's kind. -/
def Binding.kindName : Binding → String
  | .plain => "EQUAL"
  | .add => "PLUSEQ"
  | .sub => "MINUSEQ"
  | .mul => "TIMESEQ"
  | .div => "DIVIDEEQ"

/-- The name of a literal's kind. -/
def LiteralKind.kindName : LiteralKind → String
  | .int => "INT"
  | .float => "FLOAT"
  | .string => "STRING"
  | .trueWord => "TRUE"
  | .falseWord => "FALSE"
  | .noneWord => "NONE"

namespace Kind

/-- The kind of an operator's token. -/
abbrev op (o : Operator) : Kind :=
  .connective (.apply o)

/-- The name of a kind. -/
def label : Kind → String
  | .name => "NAME"
  | .literal l => l.kindName
  | .connective (.apply o) => o.kindName
  | .connective .and => "AND"
  | .connective .or => "OR"
  | .binding b => b.kindName
  | .openParen => "LPAREN"
  | .closeParen => "RPAREN"
  | .comma => "COMMA"
  | .colon => "COLON"
  | .newline => "NEWLINE"
  | .indent => "INDENT"
  | .dedent => "DEDENT"
  | .defWord => "DEF"
  | .ifWord => "IF"
  | .elifWord => "ELIF"
  | .elseWord => "ELSE"
  | .notWord => "NOT"
  | .eof => "EOF"

/-- Every kind, in the order of the names that messages show. -/
def all : List Kind :=
  [.connective .and, .colon, .comma, .dedent, .defWord, .op .div, .binding .div, .elifWord,
    .elseWord, .op .eq, .binding .plain, .literal .falseWord, .literal .float, .op .floorDiv,
    .op .ge, .op .gt, .ifWord, .indent, .literal .int, .op .le, .openParen, .op .lt, .op .sub,
    .binding .sub, .op .mod, .name, .op .ne, .newline, .literal .noneWord, .notWord,
    .connective .or, .op .add, .binding .add, .op .pow, .closeParen, .literal .string, .op .mul,
    .binding .mul, .literal .trueWord, .eof]

theorem mem_all (k : Kind) : k ∈ all := by
  cases k with
  | literal l => cases l <;> decide
  | connective c => cases c with
    | apply o => cases o <;> decide
    | and => decide
    | or => decide
  | binding b => cases b <;> decide
  | _ => decide

/-- The phrase for a kind whose text would tell a reader nothing. -/
def phrase? : Kind → Option String
  | .newline => some "fin de línea"
  | .indent => some "indentación"
  | .dedent => some "fin de bloque"
  | .eof => some "fin de entrada"
  | _ => none

/-- The name of a kind in a list of expected kinds. -/
def expectedName (k : Kind) : String :=
  if k = .eof then "fin de entrada" else k.label

/-- The names of all kinds are in order, and so no two kinds share one. -/
theorem pairwise_expectedName : (all.map expectedName).Pairwise (· < ·) := by
  decide +kernel

/-- The name of a kind in the grammar, where the end of input has a sign of its own. -/
def grammarName (k : Kind) : String :=
  if k = .eof then "$end" else k.label

/-- The kind with a given name in the grammar. -/
def ofGrammarName? (name : String) : Option Kind :=
  all.find? (·.grammarName = name)

end Kind

/-- A token as messages show it: its text in quotes, and the name of its kind. -/
def describeText (kind text : String) : String :=
  quoted text ++ " (" ++ kind ++ ")"

/-- A token as messages show it: by the phrase for its kind, if there is one. -/
def Kind.describe (k : Kind) (text : String) : String :=
  k.phrase?.getD (describeText k.label text)

end Sangria
