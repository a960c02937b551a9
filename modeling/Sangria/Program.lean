import Sangria.Position
import Sangria.Token.Kind

/-!
# Program trees

A program is a list of statements, each with the position of its first token. Trees come from the
parser or from elsewhere; one from elsewhere may hold an operator that the language lacks
(`Written.unknown`) or a node of no known kind (`Expr.foreign`), which can be carried but not
carried out.

`Block.wellFormed` singles out the trees without either.
-/

namespace Sangria

/-- The values that a source can write down. -/
inductive Literal
  /-- No value. -/
  | none
  /-- A truth value. -/
  | bool (b : Bool)
  /-- An integer. -/
  | int (n : Int)
  /-- A real number. -/
  | real (x : Float)
  /-- A text. It is part of a source, so it holds no surrogates. -/
  | text (s : String)

/-- An operator as a tree writes it. -/
inductive Written (α : Type)
  /-- One that the language has. -/
  | known (op : α)
  /-- A symbol that stands for none. -/
  | unknown (symbol : String)
  deriving DecidableEq, Repr

/-- Expressions. -/
inductive Expr
  /-- A value written down. -/
  | literal (v : Literal)
  /-- The value of a name. -/
  | name (x : String)
  /-- An operator on two values. -/
  | binary (op : Written Operator) (left right : Expr)
  /-- Both sides, the right one only if the left one holds. -/
  | and (left right : Expr)
  /-- Either side, the right one only if the left one does not hold. -/
  | or (left right : Expr)
  /-- Negation of truth. -/
  | not (e : Expr)
  /-- A sign before a value. -/
  | signed (sign : Written Sign) (e : Expr)
  /-- A call of a named function. -/
  | call (f : String) (args : List Expr)
  /-- A node of no known kind. -/
  | foreign (tag : String)

/-- Statements. -/
inductive Stmt
  /-- An expression for its value. -/
  | eval (e : Expr)
  /-- A name bound to a value, or to what an operator makes of its old value and that one. -/
  | assign (x : String) (op : Option (Written Operator)) (e : Expr)
  /-- A function. -/
  | define (f : String) (params : List String) (body : List (Located Stmt))
  /-- A block under a condition, and perhaps another for when it does not hold. -/
  | branch (condition : Expr) (body : List (Located Stmt))
      (otherwise : Option (List (Located Stmt)))

/-- Statements to be carried out in order. -/
abbrev Block := List (Located Stmt)

/-- The operator that a symbol stands for. -/
def Written.operator (symbol : String) : Written Operator :=
  match Operator.ofSymbol? symbol with
  | some op => .known op
  | none => .unknown symbol

/-- The symbol of an operator stands for it. -/
theorem Written.operator_symbol (op : Operator) : Written.operator op.symbol = .known op := by
  cases op <;> rfl

/-- The sign that a symbol stands for. -/
def Written.sign (symbol : String) : Written Sign :=
  match Sign.ofSymbol? symbol with
  | some s => .known s
  | none => .unknown symbol

/-- The symbol of a sign stands for it. -/
theorem Written.sign_symbol (s : Sign) : Written.sign s.symbol = .known s := by
  cases s <;> rfl

/-- The operator that a binding symbol asks for: none for the plain one, and otherwise the one that
is written without its last character. -/
def Written.binding (symbol : String) : Option (Written Operator) :=
  if symbol = "=" then none
  else some (Written.operator (String.ofList symbol.toList.dropLast))

namespace Expr

/-- The operator node that a connective makes. -/
def join (c : Connective) (left right : Expr) : Expr :=
  match c with
  | .apply op => .binary (.known op) left right
  | .and => .and left right
  | .or => .or left right

/-- Whether every node is of a known kind and every operator is one of the language. -/
def wellFormed : Expr → Bool
  | .literal _ => true
  | .name _ => true
  | .binary (.known _) l r => l.wellFormed && r.wellFormed
  | .binary (.unknown _) _ _ => false
  | .and l r => l.wellFormed && r.wellFormed
  | .or l r => l.wellFormed && r.wellFormed
  | .not e => e.wellFormed
  | .signed (.known _) e => e.wellFormed
  | .signed (.unknown _) _ => false
  | .call _ args => wellFormedArgs args
  | .foreign _ => false
where
  /-- The same for every argument. -/
  wellFormedArgs : List Expr → Bool
    | [] => true
    | e :: rest => e.wellFormed && wellFormedArgs rest

end Expr

mutual

/-- Whether every node in a statement is of a known kind and every operator is one of the
language. -/
def Stmt.wellFormed : Stmt → Bool
  | .eval e => e.wellFormed
  | .assign _ none e => e.wellFormed
  | .assign _ (some (.known _)) e => e.wellFormed
  | .assign _ (some (.unknown _)) _ => false
  | .define _ _ body => Block.wellFormed body
  | .branch c body none => c.wellFormed && Block.wellFormed body
  | .branch c body (some other) => c.wellFormed && Block.wellFormed body && Block.wellFormed other

/-- The same for every statement of a block. -/
def Block.wellFormed : List (Located Stmt) → Bool
  | [] => true
  | ⟨_, s⟩ :: rest => s.wellFormed && Block.wellFormed rest

end

/-- What holds of the empty block, and of a block as soon as it holds of the blocks in its first
statement and of the statements behind that, holds of all blocks. -/
@[elab_as_elim]
theorem Block.induction {P : Block → Prop} (b : Block) (nil : P [])
    (eval : ∀ p e rest, P rest → P (⟨p, .eval e⟩ :: rest))
    (assign : ∀ p x op e rest, P rest → P (⟨p, .assign x op e⟩ :: rest))
    (define : ∀ p f params body rest, P body → P rest → P (⟨p, .define f params body⟩ :: rest))
    (branch : ∀ p c body rest, P body → P rest → P (⟨p, .branch c body none⟩ :: rest))
    (branchElse : ∀ p c body other rest, P body → P other → P rest →
      P (⟨p, .branch c body (some other)⟩ :: rest)) : P b := by
  match b with
  | [] => exact nil
  | ⟨p, .eval e⟩ :: rest =>
    exact eval p e rest (induction rest nil eval assign define branch branchElse)
  | ⟨p, .assign x op e⟩ :: rest =>
    exact assign p x op e rest (induction rest nil eval assign define branch branchElse)
  | ⟨p, .define f params body⟩ :: rest =>
    exact define p f params body rest (induction body nil eval assign define branch branchElse)
      (induction rest nil eval assign define branch branchElse)
  | ⟨p, .branch c body none⟩ :: rest =>
    exact branch p c body rest (induction body nil eval assign define branch branchElse)
      (induction rest nil eval assign define branch branchElse)
  | ⟨p, .branch c body (some other)⟩ :: rest =>
    exact branchElse p c body other rest
      (induction body nil eval assign define branch branchElse)
      (induction other nil eval assign define branch branchElse)
      (induction rest nil eval assign define branch branchElse)

end Sangria
