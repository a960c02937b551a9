import Sangria.Number.RealText
import Sangria.Proofs.Grammar.Deriving
import Sangria.Proofs.Printing.Line

/-!
# Printing expressions

An expression is printed as words. Its operands stand in parentheses only where the table of
precedence asks for them (`Printed.rightOperand`, `Printed.leftOperand`); what has to be known of an
operand for that is kept with its words.

Words that are printed for an expression can be written, and their parentheses match
(`Expr.Printable.tidy_print`).
-/

namespace Sangria

/-! ### The words of the language -/

/-- The word of a connective. -/
def Connective.word : Connective → Word
  | .and => ⟨.connective .and, "and".toList⟩
  | .or => ⟨.connective .or, "or".toList⟩
  | .apply op => ⟨.op op, op.symbol.toList⟩

/-- The word of a sign. -/
def Sign.word (s : Sign) : Word :=
  ⟨s.kind, s.symbol.toList⟩

/-- The word of a literal. -/
def Literal.word : Literal → Word
  | .none => ⟨.literal .noneWord, "None".toList⟩
  | .bool true => ⟨.literal .trueWord, "True".toList⟩
  | .bool false => ⟨.literal .falseWord, "False".toList⟩
  | .int n => ⟨.literal .int, Nat.toDigits 10 n.toNat⟩
  | .real x => ⟨.literal .float, (realText x).toList⟩
  | .text s => ⟨.literal .string, '"' :: (escape '"' s.toList ++ ['"'])⟩

namespace Word

/-- A name as a word. -/
def ofName (x : String) : Word := ⟨.name, x.toList⟩

/-- An opening parenthesis. -/
def openParen : Word := ⟨.openParen, ['(']⟩

/-- A closing parenthesis. -/
def closeParen : Word := ⟨.closeParen, [')']⟩

/-- A comma. -/
def comma : Word := ⟨.comma, [',']⟩

/-- A colon. -/
def colon : Word := ⟨.colon, [':']⟩

/-- The word that negates. -/
def notWord : Word := ⟨.notWord, "not".toList⟩

end Word

/-- Words with commas between them. -/
def commaSeparated : List (List Word) → List Word
  | [] => []
  | ws :: rest => ws ++ rest.flatMap (.comma :: ·)

/-! ### Printing -/

/-- An expression that has been printed. -/
structure Printed where
  /-- The words. -/
  words : List Word
  /-- The operators whose right operand ends where the words do, the outermost first. -/
  spine : List Precedence
  /-- The connective that the expression is made by, if it is not in parentheses. -/
  connective? : Option Connective

namespace Printed

/-- Words that no operator splits. -/
def atom (ws : List Word) : Printed :=
  ⟨ws, [], none⟩

/-- In parentheses. -/
def inParens (e : Printed) : Printed :=
  atom (.openParen :: (e.words ++ [.closeParen]))

/-- As the right or only operand of an operator: in parentheses, unless it is no connective or one
that opens inside the operator. -/
def rightOperand (outer : Precedence) (e : Printed) : Printed :=
  if ∀ c ∈ e.connective?, c.precedence.OpensInside outer then e else e.inParens

/-- As the left operand of a connective: in parentheses, unless everything that it leaves open
closes before the connective. -/
def leftOperand (c : Connective) (e : Printed) : Printed :=
  if ∀ p ∈ e.spine, p.ClosesBefore c.precedence then e else e.inParens

/-- Two operands with a connective between them. -/
def joined (c : Connective) (l r : Printed) : Printed :=
  ⟨(l.leftOperand c).words ++ c.word :: (r.rightOperand c.precedence).words,
    c.precedence :: (r.rightOperand c.precedence).spine, some c⟩

/-- An operand behind an operator's word. -/
def behind (w : Word) (p : Precedence) (e : Printed) : Printed :=
  ⟨w :: (e.rightOperand p).words, p :: (e.rightOperand p).spine, none⟩

end Printed

/-- An expression is printed. What the language cannot write stands there by its name. -/
def Expr.print : Expr → Printed
  | .literal v => .atom [v.word]
  | .name x => .atom [.ofName x]
  | .binary (.known op) l r => .joined (.apply op) l.print r.print
  | .binary (.unknown symbol) _ _ => .atom [.ofName symbol]
  | .and l r => .joined .and l.print r.print
  | .or l r => .joined .or l.print r.print
  | .not e => .behind .notWord negationPrecedence e.print
  | .signed (.known s) e => .behind s.word signPrecedence e.print
  | .signed (.unknown symbol) _ => .atom [.ofName symbol]
  | .call f args =>
    .atom (.ofName f :: .openParen :: (commaSeparated (printAll args) ++ [.closeParen]))
  | .foreign tag => .atom [.ofName tag]
where
  /-- The words of every argument. -/
  printAll : List Expr → List (List Word)
    | [] => []
    | e :: rest => e.print.words :: printAll rest

theorem Expr.printAll_eq (es : List Expr) : print.printAll es = es.map (·.print.words) := by
  induction es with
  | nil => rfl
  | cons e rest ih => rw [print.printAll, ih, List.map_cons]

theorem Expr.print_join (c : Connective) (l r : Expr) :
    (Expr.join c l r).print = .joined c l.print r.print := by
  cases c <;> rfl

/-! ### What can be printed -/

/-- A literal that can be written and read again: no real number, and no integer that is negative or
has too many digits. -/
def Literal.Printable : Literal → Prop
  | .none | .bool _ | .text _ => True
  | .int n => 0 ≤ n ∧ n < 10 ^ maxDigits
  | .real _ => False

/-- An expression that the language can write. -/
inductive Expr.Printable : Expr → Prop
  /-- A literal. -/
  | literal {v : Literal} (h : v.Printable) : Printable (.literal v)
  /-- A name. -/
  | name {x : String} (h : isName x = true) : Printable (.name x)
  /-- A connective between expressions. -/
  | join (c : Connective) {l r : Expr} (left : Printable l) (right : Printable r) :
      Printable (.join c l r)
  /-- A negated expression. -/
  | not {e : Expr} (h : Printable e) : Printable (.not e)
  /-- An expression behind a sign. -/
  | signed (s : Sign) {e : Expr} (h : Printable e) : Printable (.signed (.known s) e)
  /-- A call of a name with expressions. -/
  | call {f : String} (h : isName f = true) {args : List Expr} (all : ∀ e ∈ args, Printable e) :
      Printable (.call f args)

/-! ### The words can be written -/

/-- Words that can be written, with parentheses that match. -/
structure Tidy (ws : List Word) : Prop where
  /-- They can be written. -/
  legible : ∀ w ∈ ws, w.Legible
  /-- Their parentheses match, whatever is open before them. -/
  matched : ∀ depth, openAfter depth ws = depth

namespace Tidy

theorem nil : Tidy [] :=
  ⟨fun _ hw ↦ absurd hw List.not_mem_nil, fun _ ↦ rfl⟩

theorem append {ws ws' : List Word} (h : Tidy ws) (h' : Tidy ws') : Tidy (ws ++ ws') := by
  refine ⟨List.forall_mem_append.2 ⟨h.legible, h'.legible⟩, fun depth ↦ ?_⟩
  have hsplit : openAfter depth (ws ++ ws') = openAfter (openAfter depth ws) ws' :=
    List.foldl_append
  rw [hsplit, h.matched, h'.matched]

theorem cons {w : Word} (hw : w.Legible) (hkind : ∀ depth, Layout.depthAfter depth w.kind = depth)
    {ws : List Word} (h : Tidy ws) : Tidy (w :: ws) := by
  refine ⟨List.forall_mem_cons.2 ⟨hw, h.legible⟩, fun depth ↦ ?_⟩
  rw [openAfter, List.foldl_cons, hkind]
  exact h.matched depth

theorem inParens {ws : List Word} (h : Tidy ws) :
    Tidy (.openParen :: (ws ++ [.closeParen])) := by
  have hopen : Word.openParen.Legible := .sign (by decide)
  have hclose : Word.closeParen.Legible := .sign (by decide)
  refine ⟨?_, fun depth ↦ ?_⟩
  · rw [List.forall_mem_cons, List.forall_mem_append, List.forall_mem_singleton]
    exact ⟨hopen, h.legible, hclose⟩
  · have hsplit : openAfter depth (.openParen :: (ws ++ [.closeParen])) =
        openAfter (depth + 1) ws - 1 := List.foldl_append
    rw [hsplit, h.matched, Nat.add_sub_cancel]

theorem flatMap_comma {wss : List (List Word)} (h : ∀ ws ∈ wss, Tidy ws) :
    Tidy (wss.flatMap (.comma :: ·)) := by
  induction wss with
  | nil => exact nil
  | cons ws rest ih =>
    obtain ⟨hfirst, hrest⟩ := List.forall_mem_cons.1 h
    rw [List.flatMap_cons]
    exact (cons (w := .comma) (.sign (by decide)) (fun _ ↦ rfl) hfirst).append (ih hrest)

theorem commaSeparated {wss : List (List Word)} (h : ∀ ws ∈ wss, Tidy ws) :
    Tidy (commaSeparated wss) := by
  cases wss with
  | nil => exact nil
  | cons ws rest =>
    obtain ⟨hfirst, hrest⟩ := List.forall_mem_cons.1 h
    exact hfirst.append (flatMap_comma hrest)

variable {l r e : Printed}

theorem rightOperand (h : Tidy e.words) (outer : Precedence) :
    Tidy (e.rightOperand outer).words := by
  unfold Printed.rightOperand
  split
  · exact h
  · exact h.inParens

theorem leftOperand (h : Tidy e.words) (c : Connective) : Tidy (e.leftOperand c).words := by
  unfold Printed.leftOperand
  split
  · exact h
  · exact h.inParens

theorem joined (c : Connective) (hl : Tidy l.words) (hr : Tidy r.words) :
    Tidy (Printed.joined c l r).words := by
  have hsign : ∀ op : Operator, (op.symbol.toList, Kind.op op) ∈ signs := by
    intro op
    cases op <;> decide
  refine (hl.leftOperand c).append (cons ?_ (fun _ ↦ ?_) (hr.rightOperand _))
  · cases c with
    | and | or => exact .reserved (by decide)
    | apply op => exact .sign (hsign op)
  · cases c <;> rfl

end Tidy

theorem Literal.legible_word (v : Literal) (h : v.Printable) : v.word.Legible := by
  cases v with
  | none => exact .reserved (by decide)
  | bool b => cases b <;> exact .reserved (by decide)
  | int n => exact .int _
  | real x => exact h.elim
  | text s => exact .string _

theorem Literal.depthAfter_word (v : Literal) (depth : Nat) :
    Layout.depthAfter depth v.word.kind = depth := by
  rcases v with - | (_ | _) | _ | _ | _ <;> rfl

/-- What is printed for an expression can be written. -/
theorem Expr.Printable.tidy_print {e : Expr} (h : e.Printable) : Tidy e.print.words := by
  induction h with
  | @literal v h => exact .cons (v.legible_word h) v.depthAfter_word .nil
  | name h => exact .cons (.name h) (fun _ ↦ rfl) .nil
  | join c _ _ ihl ihr =>
    rw [Expr.print_join]
    exact .joined c ihl ihr
  | not _ ih =>
    exact .cons (w := .notWord) (.reserved (by decide)) (fun _ ↦ rfl) (ih.rightOperand _)
  | signed s _ ih =>
    refine .cons (.sign ?_) (fun _ ↦ ?_) (ih.rightOperand _)
    · cases s <;> decide
    · cases s <;> rfl
  | @call f h args _ ih =>
    have hargs : Tidy (commaSeparated (print.printAll args)) := by
      refine .commaSeparated fun ws hws ↦ ?_
      rw [Expr.printAll_eq] at hws
      obtain ⟨e, he, rfl⟩ := List.mem_map.1 hws
      exact ih e he
    exact .cons (.name h) (fun _ ↦ rfl) hargs.inParens

end Sangria
