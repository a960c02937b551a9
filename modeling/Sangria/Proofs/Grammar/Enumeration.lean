import Sangria.Grammar.Table

/-!
# The grammar is finite

Every type that the grammar and its table are made of has finitely many members, listed here family
by family. So a statement about all states, all symbols or all productions is decidable by going
through the lists, and that is how the table is checked: each check is one statement over all its
entries, settled by evaluation.

The instances are stated on the universal statement itself, because that is the only use made of the
lists; the lists may come in any order.
-/

namespace Sangria

theorem Operator.mem_all (op : Operator) : op ∈ Operator.all := by
  cases op <;> decide

/-- Every connective. -/
def Connective.all : List Connective :=
  .and :: .or :: Operator.all.map .apply

theorem Connective.mem_all (c : Connective) : c ∈ Connective.all := by
  cases c with
  | apply op => simp [Connective.all, Operator.mem_all op]
  | and => simp [Connective.all]
  | or => simp [Connective.all]

/-- Every binding. -/
def Binding.all : List Binding :=
  [.plain, .add, .sub, .mul, .div]

theorem Binding.mem_all (b : Binding) : b ∈ Binding.all := by
  cases b <;> decide

/-- Every kind of literal. -/
def LiteralKind.all : List LiteralKind :=
  [.int, .float, .string, .trueWord, .falseWord, .noneWord]

theorem LiteralKind.mem_all (l : LiteralKind) : l ∈ LiteralKind.all := by
  cases l <;> decide

/-- Every sign. -/
def Sign.all : List Sign :=
  [.neg, .pos]

theorem Sign.mem_all (s : Sign) : s ∈ Sign.all := by
  cases s <;> decide

/-- Every slot. -/
def Slot.all : List Slot :=
  ([.assigned, .condition, .furtherCondition, .parenthesis, .firstArg, .nextArg,
    .negated] : List Slot)
    ++ Connective.all.map .right ++ Sign.all.map .signed

theorem Slot.mem_all (s : Slot) : s ∈ Slot.all := by
  cases s with
  | right c => simp [Slot.all, Connective.mem_all c]
  | signed s => simp [Slot.all, Sign.mem_all s]
  | _ => decide

/-- Every state. -/
def State.all : List State :=
  ([.start, .statements, .complete, .firstStatement, .nextStatement, .simple, .simpleEnd, .compound,
    .assignment, .bare, .definition, .branch, .leadingName, .defWord, .defName, .defOpen,
    .firstParam, .params, .noParams, .paramComma, .nextParam, .paramList, .defClose, .defColon,
    .defBlock, .ifColon, .ifBlock, .elifColon, .elifBlock, .elseWord, .elseColon, .elseBlock,
    .noElse, .ifOtherwise, .elifOtherwise, .blockLine, .blockStart, .blockStatements, .blockEnd,
    .bareExpr, .name, .parenClose, .literalAtom, .atom, .callAtom, .args, .noArgs, .argList,
    .callClose] : List State)
    ++ Binding.all.map .mark ++ Slot.all.map .before ++ Slot.all.map .after
    ++ LiteralKind.all.map .literal

theorem State.mem_all (s : State) : s ∈ State.all := by
  cases s with
  | mark b => simp [State.all, Binding.mem_all b]
  | before s => simp [State.all, Slot.mem_all s]
  | after s => simp [State.all, Slot.mem_all s]
  | literal l => simp [State.all, LiteralKind.mem_all l]
  | _ => decide

/-- Every kind of phrase. -/
def Nonterminal.all : List Nonterminal :=
  [.program, .statements, .statement, .simple, .assignment, .mark, .bare, .compound, .definition,
    .paramList, .params, .branch, .otherwise, .block, .expr, .atom, .call, .argList, .args,
    .literal, .nothing]

theorem Nonterminal.mem_all (n : Nonterminal) : n ∈ Nonterminal.all := by
  cases n <;> decide

/-- Every symbol of the grammar. -/
def GrammarSymbol.all : List GrammarSymbol :=
  Kind.all.map .token ++ Nonterminal.all.map .phrase

theorem GrammarSymbol.mem_all (x : GrammarSymbol) : x ∈ GrammarSymbol.all := by
  cases x with
  | token k => simp [GrammarSymbol.all, Kind.mem_all k]
  | phrase n => simp [GrammarSymbol.all, Nonterminal.mem_all n]

/-- Every production. -/
def Production.all : List Production :=
  ([.program, .nextStatement, .firstStatement, .simple, .compound, .simpleAssignment, .simpleBare,
    .assignment, .bare, .compoundDefinition, .compoundBranch, .definition, .someParams, .noParams,
    .firstParam, .nextParam, .branch, .elif, .otherwise, .noOtherwise, .block, .negation, .atom,
    .literalAtom, .parenthesized, .callAtom, .nameAtom, .call, .someArgs, .noArgs, .firstArg,
    .nextArg, .nothing] : List Production)
    ++ Binding.all.map .mark ++ Connective.all.map .join ++ Sign.all.map .signed
    ++ LiteralKind.all.map .literal

theorem Production.mem_all (p : Production) : p ∈ Production.all := by
  cases p with
  | mark b => simp [Production.all, Binding.mem_all b]
  | join c => simp [Production.all, Connective.mem_all c]
  | signed s => simp [Production.all, Sign.mem_all s]
  | literal l => simp [Production.all, LiteralKind.mem_all l]
  | _ => decide

section Decidable

/-- A statement about all members of a type is decided by going through a list of them. -/
def decidableForall {α : Type} {P : α → Prop} [DecidablePred P] (all : List α)
    (mem_all : ∀ a, a ∈ all) : Decidable (∀ a, P a) :=
  decidable_of_iff ((all.all fun a ↦ decide (P a)) = true)
    ⟨fun h a ↦ of_decide_eq_true (List.all_eq_true.1 h a (mem_all a)),
      fun h ↦ List.all_eq_true.2 fun a _ ↦ decide_eq_true (h a)⟩

instance {P : Kind → Prop} [DecidablePred P] : Decidable (∀ k, P k) :=
  decidableForall Kind.all Kind.mem_all

instance {P : State → Prop} [DecidablePred P] : Decidable (∀ s, P s) :=
  decidableForall State.all State.mem_all

instance {P : Nonterminal → Prop} [DecidablePred P] : Decidable (∀ n, P n) :=
  decidableForall Nonterminal.all Nonterminal.mem_all

instance {P : GrammarSymbol → Prop} [DecidablePred P] : Decidable (∀ x, P x) :=
  decidableForall GrammarSymbol.all GrammarSymbol.mem_all

instance {P : Production → Prop} [DecidablePred P] : Decidable (∀ p, P p) :=
  decidableForall Production.all Production.mem_all

end Decidable

end Sangria
