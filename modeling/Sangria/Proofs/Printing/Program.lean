import Sangria.Proofs.Printing.Expression

/-!
# Printing programs

A statement is printed as lines, with the lines of its blocks one level deeper (`Stmt.lines`), and a
program as the text of its lines (`Block.print`). A branch inside the block for when no condition
holds is printed there, so there is no word for a further condition.

The lines of a program that can be printed can be read again
(`Stmt.Printable.legible_of_mem_lines`), and go down by one level at most
(`Stmt.Printable.stepwise_lines`).
-/

namespace Sangria

/-- The word of a binding. -/
def Binding.word (b : Binding) : Word :=
  ⟨.binding b, ((b.operator?.map (·.symbol)).getD "" ++ "=").toList⟩

/-- The binding for what is made of the old value, as far as the language has it. -/
def Binding.ofOperator : Option (Written Operator) → Binding
  | some (.known .add) => .add
  | some (.known .sub) => .sub
  | some (.known .mul) => .mul
  | some (.known .div) => .div
  | _ => .plain

namespace Word

/-- The word that defines a function. -/
def defWord : Word := ⟨.defWord, "def".toList⟩

/-- The word before a condition. -/
def ifWord : Word := ⟨.ifWord, "if".toList⟩

/-- The word before what happens otherwise. -/
def elseWord : Word := ⟨.elseWord, "else".toList⟩

end Word

/-- The words before the block of a function. -/
def definitionWords (f : String) (params : List String) : List Word :=
  .defWord :: .ofName f :: .openParen ::
    (commaSeparated (params.map fun x ↦ [.ofName x]) ++ [.closeParen, .colon])

/-- The words before the block of a branch. -/
def branchWords (c : Expr) : List Word :=
  .ifWord :: (c.print.words ++ [.colon])

mutual

/-- The lines of a statement at a depth. -/
def Stmt.lines (depth : Nat) : Stmt → List Line
  | .eval e => [⟨depth, e.print.words⟩]
  | .assign x op e => [⟨depth, .ofName x :: (Binding.ofOperator op).word :: e.print.words⟩]
  | .define f params body => ⟨depth, definitionWords f params⟩ :: Block.lines (depth + 1) body
  | .branch c body none => ⟨depth, branchWords c⟩ :: Block.lines (depth + 1) body
  | .branch c body (some other) =>
    ⟨depth, branchWords c⟩ :: (Block.lines (depth + 1) body ++
      ⟨depth, [.elseWord, .colon]⟩ :: Block.lines (depth + 1) other)

/-- The lines of a block at a depth. -/
def Block.lines (depth : Nat) : List (Located Stmt) → List Line
  | [] => []
  | ⟨_, s⟩ :: rest => s.lines depth ++ Block.lines depth rest

end

/-- A program is printed. -/
def Block.print (b : Block) : String :=
  String.ofList (linesText (Block.lines 0 b))

/-- A statement that the language can write. -/
inductive Stmt.Printable : Stmt → Prop
  /-- An expression. -/
  | eval {e : Expr} (h : e.Printable) : Printable (.eval e)
  /-- A binding. -/
  | assign {x : String} (name : isName x = true) (b : Binding) {e : Expr} (h : e.Printable) :
      Printable (.assign x (b.operator?.map .known) e)
  /-- A function. -/
  | define {f : String} (name : isName f = true) {params : List String}
      (names : ∀ x ∈ params, isName x = true) {body : Block} (ne_nil : body ≠ [])
      (all : ∀ s ∈ body, Printable s.item) : Printable (.define f params body)
  /-- A branch. -/
  | branch {c : Expr} (h : c.Printable) {body : Block} (ne_nil : body ≠ [])
      (all : ∀ s ∈ body, Printable s.item) {otherwise : Option Block}
      (otherwise_ne_nil : ∀ b ∈ otherwise, b ≠ [])
      (otherwise_all : ∀ b ∈ otherwise, ∀ s ∈ b, Printable s.item) :
      Printable (.branch c body otherwise)

/-- A program that the language can write: one statement or more, all of which it can write. -/
structure Block.Printable (b : Block) : Prop where
  /-- There are statements. -/
  ne_nil : b ≠ []
  /-- They can be written. -/
  all : ∀ s ∈ b, s.item.Printable

/-! ### Lines that can be read again -/

theorem Binding.ofOperator_operator? (b : Binding) :
    Binding.ofOperator (b.operator?.map .known) = b := by
  cases b <;> rfl

/-- What a binding asks for is what its symbol does, read without the last character. -/
theorem Binding.binding_word (b : Binding) :
    Written.binding (String.ofList b.word.text) = b.operator?.map .known := by
  cases b <;> rfl

theorem Binding.legible_word (b : Binding) : b.word.Legible := by
  cases b <;> exact .sign (by decide)

theorem Expr.Printable.words_ne_nil {e : Expr} (h : e.Printable) : e.print.words ≠ [] := by
  cases h with
  | join c _ _ =>
    rw [Expr.print_join]
    exact List.append_ne_nil_of_right_ne_nil _ (List.cons_ne_nil _ _)
  | _ => exact List.cons_ne_nil _ _

theorem Tidy.legible_line {ws : List Word} (h : Tidy ws) (hne : ws ≠ []) (depth : Nat) :
    Line.Legible ⟨depth, ws⟩ :=
  ⟨hne, h.legible, h.matched 0⟩

theorem Tidy.colon : Tidy [.colon] :=
  cons (.sign (by decide)) (fun _ ↦ rfl) nil

theorem tidy_definitionWords {f : String} {params : List String} (hf : isName f = true)
    (hparams : ∀ x ∈ params, isName x = true) : Tidy (definitionWords f params) := by
  have hnames : Tidy (commaSeparated (params.map fun x ↦ [.ofName x])) := by
    refine .commaSeparated fun ws hws ↦ ?_
    obtain ⟨x, hx, rfl⟩ := List.mem_map.1 hws
    exact .cons (.name (hparams x hx)) (fun _ ↦ rfl) .nil
  have hparens := hnames.inParens.append .colon
  rw [List.cons_append, List.append_assoc] at hparens
  exact .cons (.reserved (by decide)) (fun _ ↦ rfl) (.cons (.name hf) (fun _ ↦ rfl) hparens)

theorem tidy_branchWords {c : Expr} (h : c.Printable) : Tidy (branchWords c) :=
  .cons (.reserved (by decide)) (fun _ ↦ rfl) (h.tidy_print.append .colon)

theorem tidy_elseWords : Tidy [.elseWord, .colon] :=
  .cons (.reserved (by decide)) (fun _ ↦ rfl) .colon

theorem Block.lines_eq (depth : Nat) (b : Block) :
    Block.lines depth b = b.flatMap fun s ↦ s.item.lines depth := by
  induction b with
  | nil => rfl
  | cons s rest ih =>
    obtain ⟨p, s⟩ := s
    rw [Block.lines, ih, List.flatMap_cons]

/-- The lines of a block can be read again if those of its statements can. -/
theorem Block.legible_of_mem_lines {b : Block} {depth : Nat}
    (h : ∀ s ∈ b, ∀ l ∈ s.item.lines depth, l.Legible) : ∀ l ∈ Block.lines depth b, l.Legible := by
  intro l hl
  rw [Block.lines_eq] at hl
  obtain ⟨s, hs, hl⟩ := List.mem_flatMap.1 hl
  exact h s hs l hl

/-- The lines of a statement can be read again. -/
theorem Stmt.Printable.legible_of_mem_lines {s : Stmt} (h : s.Printable) (depth : Nat) :
    ∀ l ∈ s.lines depth, l.Legible := by
  induction h generalizing depth with
  | eval h =>
    rw [Stmt.lines, List.forall_mem_singleton]
    exact h.tidy_print.legible_line h.words_ne_nil depth
  | assign hx b h =>
    rw [Stmt.lines, List.forall_mem_singleton, Binding.ofOperator_operator?]
    exact Tidy.legible_line (.cons (.name hx) (fun _ ↦ rfl)
      (.cons b.legible_word (fun _ ↦ rfl) h.tidy_print)) (List.cons_ne_nil _ _) depth
  | define hf hparams _ _ ih =>
    rw [Stmt.lines, List.forall_mem_cons]
    exact ⟨(tidy_definitionWords hf hparams).legible_line (List.cons_ne_nil _ _) depth,
      Block.legible_of_mem_lines fun s hs ↦ ih s hs (depth + 1)⟩
  | @branch c h body _ _ otherwise _ _ ih ih' =>
    have hhead := (tidy_branchWords h).legible_line (List.cons_ne_nil _ _) depth
    have hbody := Block.legible_of_mem_lines fun s hs ↦ ih s hs (depth + 1)
    cases otherwise with
    | none =>
      rw [Stmt.lines, List.forall_mem_cons]
      exact ⟨hhead, hbody⟩
    | some other =>
      rw [Stmt.lines, List.forall_mem_cons, List.forall_mem_append, List.forall_mem_cons]
      exact ⟨hhead, hbody, tidy_elseWords.legible_line (List.cons_ne_nil _ _) depth,
        Block.legible_of_mem_lines fun s hs ↦ ih' other rfl s hs (depth + 1)⟩

/-! ### Depths -/

theorem Stepwise.mono {n d : Nat} {lines : List Line} (h : Stepwise n lines) (hd : n ≤ d) :
    Stepwise d lines := by
  cases lines with
  | nil => trivial
  | cons l rest => exact ⟨Nat.le_trans h.1 (Nat.succ_le_succ hd), h.2⟩

/-- The lines of a block go down by one level at most, if those of its statements do. -/
theorem Block.stepwise_lines {b : Block} {n : Nat}
    (h : ∀ s ∈ b, ∀ d rest, n ≤ d + 1 → Stepwise n rest → Stepwise d (s.item.lines n ++ rest))
    {d : Nat} {rest : List Line} (hd : b ≠ [] ∧ n ≤ d + 1 ∨ n ≤ d) (hrest : Stepwise n rest) :
    Stepwise d (Block.lines n b ++ rest) := by
  induction b generalizing d with
  | nil =>
    rcases hd with ⟨hne, -⟩ | hd
    · exact absurd rfl hne
    · exact hrest.mono hd
  | cons s b ih =>
    obtain ⟨p, s⟩ := s
    obtain ⟨hs, hb⟩ := List.forall_mem_cons.1 h
    rw [Block.lines, List.append_assoc]
    refine hs d _ ?_ (ih hb (.inr (Nat.le_refl n)))
    rcases hd with ⟨-, hd⟩ | hd <;> omega

/-- The lines of a statement go down by one level at most, and back to its own. -/
theorem Stmt.Printable.stepwise_lines {s : Stmt} (h : s.Printable) {n d : Nat} {rest : List Line}
    (hd : n ≤ d + 1) (hrest : Stepwise n rest) : Stepwise d (s.lines n ++ rest) := by
  induction h generalizing n d rest with
  | eval h | assign hx b h => exact ⟨hd, hrest⟩
  | define hf hparams hne _ ih =>
    rw [Stmt.lines]
    refine ⟨hd, Block.stepwise_lines (fun s hs d rest ↦ ih s hs) (.inl ⟨hne, Nat.le_refl _⟩) ?_⟩
    exact hrest.mono (Nat.le_succ n)
  | @branch c h body hne _ otherwise hne' _ ih ih' =>
    cases otherwise with
    | none =>
      rw [Stmt.lines]
      refine ⟨hd, Block.stepwise_lines (fun s hs d rest ↦ ih s hs) (.inl ⟨hne, Nat.le_refl _⟩) ?_⟩
      exact hrest.mono (Nat.le_succ n)
    | some other =>
      rw [Stmt.lines, List.cons_append, List.append_assoc]
      refine ⟨hd, Block.stepwise_lines (fun s hs d rest ↦ ih s hs) (.inl ⟨hne, Nat.le_refl _⟩) ?_⟩
      refine ⟨by dsimp only; omega, ?_⟩
      exact Block.stepwise_lines (fun s hs d rest ↦ ih' other rfl s hs)
        (.inl ⟨hne' other rfl, Nat.le_refl _⟩) (hrest.mono (Nat.le_succ n))

/-- The lines of a program are delivered as their words, with the layout that they announce. -/
theorem Block.Printable.exists_deliveries {b : Block} (h : b.Printable) :
    ∃ ts, List.Forall₂ Lexeme.Writes ts (announced 0 (Block.lines 0 b)) ∧
      deliveries (Block.print b).toList (.ofText (Block.print b).toList) .initial = ts.map .ok := by
  have hlegible := Block.legible_of_mem_lines fun s hs ↦ (h.all s hs).legible_of_mem_lines 0
  have hstep : Stepwise 0 (Block.lines 0 b ++ []) :=
    Block.stepwise_lines (fun s hs d rest ↦ (h.all s hs).stepwise_lines) (.inr (Nat.le_refl 0))
      trivial
  rw [List.append_nil] at hstep
  rw [Block.print, String.toList_ofList]
  exact exists_deliveries_lines hlegible hstep (List.nil_append _).symm
    (fun _ hc ↦ absurd hc (by simp)) 1

end Sangria
