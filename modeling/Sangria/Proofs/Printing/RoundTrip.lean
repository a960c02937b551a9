import Sangria.Proofs.Grammar.Completeness
import Sangria.Proofs.Parse.Soundness
import Sangria.Proofs.Printing.Program
import Sangria.Proofs.Printing.Spelling
import Sangria.Proofs.Program.Relocation

/-!
# What is printed is parsed again

A program that the language can write is printed, and the text is parsed as the program, but for the
positions of its statements.

The words of the printed lines, with the layout that they announce, derive the statements they were
printed for (`Stmt.Printable.linesDerive`): the lines of a block are announced by a start
and an end, which is where the grammar wants them. Completeness of the parser does the rest.
-/

namespace Sangria

/-! ### Statements from their lines -/

/-- Tokens derive a statement, but for positions. -/
def DerivesStmt (text : List Char) (s : Stmt) (ts : List Lexeme) : Prop :=
  ∃ p s', Derives text (.phrase .statement) (.statement ⟨p, s'⟩) ts ∧ s'.unplaced = s.unplaced

/-- Tokens derive a block as a phrase of a kind, but for positions. -/
def DerivesBlock (text : List Char) (n : Nonterminal) (b : Block) (ts : List Lexeme) : Prop :=
  ∃ b', Derives text (.phrase n) (.block b') ts ∧ Block.unplaced b' = Block.unplaced b

/-- Lines go on no deeper than a depth. -/
def GoesOnAt (depth : Nat) (lines : List Line) : Prop :=
  ∀ l ∈ lines.head?, l.depth ≤ depth

/-- At a depth, tokens of lines and others begin with some of which something holds, and go on with
those of the others. -/
def Begins (depth : Nat) (P : List Lexeme → Prop) (rest : List Line) (ts : List Lexeme) : Prop :=
  ∃ us vs, ts = us ++ vs ∧ P us ∧ List.Forall₂ Lexeme.Writes vs (announced depth rest)

/-- The lines of a statement at a depth begin with tokens that derive it, whatever lines follow that
go on no deeper. -/
def Stmt.LinesDerive (text : List Char) (n : Nat) (s : Stmt) : Prop :=
  ∀ rest, GoesOnAt n rest → ∀ ts,
    List.Forall₂ Lexeme.Writes ts (announced n (s.lines n ++ rest)) →
      Begins n (DerivesStmt text s) rest ts

section Announced

variable {text : List Char} {n : Nat} {rest : List Line} {ts : List Lexeme}

/-- A line at the depth of the one before it announces nothing. -/
theorem announced_cons_same (n : Nat) (ws : List Word) (rest : List Line) :
    announced n (⟨n, ws⟩ :: rest) = ws ++ .newline :: announced n rest := by
  rw [announced, announcement, if_neg (Nat.lt_irrefl n), Nat.sub_self]
  rfl

/-- Behind a block that ends, its end is announced. -/
theorem announced_of_goesOnAt (h : GoesOnAt n rest) :
    announced (n + 1) rest = .dedent :: announced n rest := by
  cases rest with
  | nil => rfl
  | cons l rest =>
    have hl : l.depth ≤ n := h l rfl
    rw [announced, announced, announcement, announcement, if_neg (by omega), if_neg (by omega),
      show n + 1 - l.depth = (n - l.depth) + 1 by omega]
    rfl

theorem exists_lines_cons (s : Stmt) (n : Nat) : ∃ ws lines, s.lines n = ⟨n, ws⟩ :: lines := by
  cases s with
  | branch c body otherwise => cases otherwise <;> exact ⟨_, _, rfl⟩
  | _ => exact ⟨_, _, rfl⟩

theorem goesOnAt_lines {b : Block} (h : GoesOnAt n rest) :
    GoesOnAt n (Block.lines n b ++ rest) := by
  cases b with
  | nil => exact h
  | cons s b =>
    obtain ⟨p, s⟩ := s
    obtain ⟨ws, lines, hlines⟩ := exists_lines_cons s n
    rw [Block.lines, hlines]
    intro l hl
    obtain rfl := Option.some.inj hl
    exact Nat.le_refl n

/-- Before a block that starts, its start is announced. -/
theorem announced_block {b : Block} (hne : b ≠ []) (n : Nat) (rest : List Line) :
    announced n (Block.lines (n + 1) b ++ rest) =
      .indent :: announced (n + 1) (Block.lines (n + 1) b ++ rest) := by
  obtain ⟨⟨p, s⟩, b, rfl⟩ := List.exists_cons_of_ne_nil hne
  obtain ⟨ws, lines, hlines⟩ := exists_lines_cons s (n + 1)
  rw [Block.lines, hlines, List.cons_append, List.cons_append, announced_cons_same, announced,
    announcement, if_pos (Nat.lt_succ_self n)]
  rfl

/-- Statements go on with those of a block. -/
theorem begins_more {b : Block} (h : ∀ s ∈ b, s.item.LinesDerive text n)
    (hrest : GoesOnAt n rest) {read : Block} {front : List Lexeme}
    (hread : DerivesBlock text .statements read front)
    (hts : List.Forall₂ Lexeme.Writes ts (announced n (Block.lines n b ++ rest))) :
    Begins n (fun us ↦ DerivesBlock text .statements (read ++ b) (front ++ us)) rest ts := by
  induction b generalizing read front ts with
  | nil =>
    refine ⟨[], ts, rfl, ?_, hts⟩
    show DerivesBlock text .statements (read ++ []) (front ++ [])
    rwa [List.append_nil, List.append_nil]
  | cons s b ih =>
    obtain ⟨p, s⟩ := s
    obtain ⟨hs, hb⟩ := List.forall_mem_cons.1 h
    rw [Block.lines, List.append_assoc] at hts
    obtain ⟨us, vs, rfl, ⟨p', s', hderives, hsame⟩, hvs⟩ := hs _ (goesOnAt_lines hrest) ts hts
    obtain ⟨read', hread, hread'⟩ := hread
    have hnext : DerivesBlock text .statements (read ++ [⟨p, s⟩]) (front ++ us) := by
      refine ⟨read' ++ [⟨p', s'⟩], ?_, ?_⟩
      · exact .phrase (p := .nextStatement) rfl (.cons hread (.single hderives)) rfl
      · rw [Block.unplaced_append, Block.unplaced_append, hread']
        simp only [Block.unplaced, hsame]
    obtain ⟨us', vs', rfl, hblock, hvs'⟩ := ih hb hnext hvs
    refine ⟨us ++ us', vs', (List.append_assoc _ _ _).symm, ?_, hvs'⟩
    rw [List.append_assoc, List.append_assoc] at hblock
    exact hblock

/-- The lines of a block begin with its statements. -/
theorem begins_statements {b : Block} (hne : b ≠ [])
    (h : ∀ s ∈ b, s.item.LinesDerive text n) (hrest : GoesOnAt n rest)
    (hts : List.Forall₂ Lexeme.Writes ts (announced n (Block.lines n b ++ rest))) :
    Begins n (DerivesBlock text .statements b) rest ts := by
  obtain ⟨⟨p, s⟩, b, rfl⟩ := List.exists_cons_of_ne_nil hne
  obtain ⟨hs, hb⟩ := List.forall_mem_cons.1 h
  rw [Block.lines, List.append_assoc] at hts
  obtain ⟨us, vs, rfl, ⟨p', s', hderives, hsame⟩, hvs⟩ := hs _ (goesOnAt_lines hrest) ts hts
  have hfirst : DerivesBlock text .statements [⟨p, s⟩] us := by
    refine ⟨[⟨p', s'⟩], .phrase (p := .firstStatement) rfl (.single hderives) rfl, ?_⟩
    simp only [Block.unplaced, hsame]
  obtain ⟨us', vs', rfl, hblock, hvs'⟩ := begins_more hb hrest hfirst hvs
  exact ⟨us ++ us', vs', (List.append_assoc _ _ _).symm, hblock, hvs'⟩

/-- The end of the line before a block and the lines of the block begin with the block. -/
theorem begins_block {b : Block} (hne : b ≠ [])
    (h : ∀ s ∈ b, s.item.LinesDerive text (n + 1)) (hrest : GoesOnAt n rest)
    (hts : List.Forall₂ Lexeme.Writes ts
      (.newline :: announced n (Block.lines (n + 1) b ++ rest))) :
    Begins n (DerivesBlock text .block b) rest ts := by
  rw [announced_block hne] at hts
  obtain ⟨line, ts, rfl, hline, hts⟩ := exists_cons_of_writes hts
  obtain ⟨indent, ts, rfl, hindent, hts⟩ := exists_cons_of_writes hts
  have hdeep : GoesOnAt (n + 1) rest := fun l hl ↦ Nat.le_succ_of_le (hrest l hl)
  obtain ⟨us, vs, rfl, ⟨b', hderives, hsame⟩, hvs⟩ := begins_statements hne h hdeep hts
  rw [announced_of_goesOnAt hrest] at hvs
  obtain ⟨dedent, vs, rfl, hdedent, hvs⟩ := exists_cons_of_writes hvs
  refine ⟨line :: indent :: (us ++ [dedent]), vs, by simp, ⟨b', ?_, hsame⟩, hvs⟩
  exact .phrase (p := .block) rfl (.token hline.1 (.token hindent.1 (.cons hderives
    (.token hdedent.1 .nil)))) rfl

/-- A statement that ends with its line. -/
theorem begins_simple {ws : List Word} {s : Stmt} (h : SpellsPhrase ws .simple (.action s))
    (hts : List.Forall₂ Lexeme.Writes ts (announced n (⟨n, ws⟩ :: rest))) :
    Begins n (DerivesStmt text s) rest ts := by
  rw [announced_cons_same] at hts
  obtain ⟨us, vs, rfl, hus, hvs⟩ := exists_append_of_writes hts
  obtain ⟨line, vs, rfl, hline, hvs⟩ := exists_cons_of_writes hvs
  have hstatement : Derives text (.phrase .statement)
      (.statement ⟨.ofOffset text (Derivation.start (us ++ [line])), s⟩) (us ++ [line]) :=
    .phrase (p := .simple) rfl (.cons (h text us hus) (.token hline.1 .nil)) rfl
  exact ⟨us ++ [line], vs, by simp, ⟨_, s, hstatement, rfl⟩, hvs⟩

/-- A statement that ends with a block. -/
theorem derivesStmt_compound {s s' : Stmt} (h : Derives text (.phrase .compound) (.action s') ts)
    (hsame : s'.unplaced = s.unplaced) : DerivesStmt text s ts :=
  ⟨.ofOffset text (Derivation.start ts), s', .phrase (p := .compound) rfl (.single h) rfl, hsame⟩

end Announced

section Statements

variable {text : List Char} {n : Nat}

theorem linesDerive_eval {e : Expr} (h : e.Printable) : (Stmt.eval e).LinesDerive text n := by
  have hsimple : SpellsPhrase e.print.words .simple (.action (.eval e)) := by
    intro text ts hts
    have hexpr := h.spells_print.spellsPhrase text ts hts
    have hbare := Derives.phrase (p := .bare) rfl (.single hexpr) rfl
    exact .phrase (p := .simpleBare) rfl (.single hbare) rfl
  exact fun rest _ ts hts ↦ begins_simple hsimple hts

theorem linesDerive_assign (x : String) (b : Binding) {e : Expr} (h : e.Printable) :
    (Stmt.assign x (b.operator?.map .known) e).LinesDerive text n := by
  intro rest _ ts hts
  rw [Stmt.lines, Binding.ofOperator_operator?] at hts
  refine begins_simple (fun text ts hts ↦ ?_) hts
  obtain ⟨t, ts, rfl, ht, hts⟩ := exists_cons_of_writes hts
  obtain ⟨u, ts, rfl, hu, hts⟩ := exists_cons_of_writes hts
  have hexpr := h.spells_print.spellsPhrase text ts hts
  obtain rfl : t.text = x := ht.2.trans String.ofList_toList
  have hmark : Derives text (.phrase .mark) (.binding b) [u] :=
    .phrase (p := .mark b) rfl (.token hu.1 .nil) rfl
  exact .phrase (p := .simpleAssignment) rfl (.single (.phrase (p := .assignment) rfl
    (.token ht.1 (.cons hmark (.single hexpr))) rfl)) rfl

theorem linesDerive_define (f : String) (params : List String) {body : Block} (hne : body ≠ [])
    (h : ∀ s ∈ body, s.item.LinesDerive text (n + 1)) :
    (Stmt.define f params body).LinesDerive text n := by
  intro rest hrest ts hts
  rw [Stmt.lines, List.cons_append, announced_cons_same, definitionWords, List.cons_append,
    List.cons_append, List.cons_append, List.append_assoc] at hts
  obtain ⟨word, ts, rfl, hword, hts⟩ := exists_cons_of_writes hts
  obtain ⟨name, ts, rfl, hname, hts⟩ := exists_cons_of_writes hts
  obtain ⟨op, ts, rfl, hopen, hts⟩ := exists_cons_of_writes hts
  obtain ⟨ps, ts, rfl, hparams, hts⟩ := exists_append_of_writes hts
  obtain ⟨cl, ts, rfl, hclose, hts⟩ := exists_cons_of_writes hts
  obtain ⟨colon, ts, rfl, hcolon, hts⟩ := exists_cons_of_writes hts
  obtain ⟨us, vs, rfl, ⟨b, hblock, hsame⟩, hvs⟩ := begins_block hne h hrest hts
  obtain rfl : name.text = f := hname.2.trans String.ofList_toList
  have hdefinition : Derives text (.phrase .definition) (.action (.define name.text params b))
      (word :: name :: op :: (ps ++ cl :: colon :: (us ++ []))) :=
    .phrase (p := .definition) rfl (.token hword.1 (.token hname.1 (.token hopen.1
      (.cons (spellsPhrase_params params text ps hparams) (.token hclose.1 (.token hcolon.1
        (.cons hblock .nil))))))) rfl
  refine ⟨_, vs, ?_, derivesStmt_compound
    (.phrase (p := .compoundDefinition) rfl (.single hdefinition) rfl) ?_, hvs⟩
  · simp
  · rw [Stmt.unplaced, Stmt.unplaced, hsame]

/-- The words before the block of a branch, and the block. -/
theorem begins_branch {c : Expr} (hc : c.Printable) {body : Block} (hne : body ≠ [])
    (h : ∀ s ∈ body, s.item.LinesDerive text (n + 1)) {rest : List Line} (hrest : GoesOnAt n rest)
    {ts : List Lexeme} (hts : List.Forall₂ Lexeme.Writes ts
      (announced n (⟨n, branchWords c⟩ :: (Block.lines (n + 1) body ++ rest)))) :
    Begins n (fun us ↦ ∃ b, Block.unplaced b = Block.unplaced body ∧ ∀ o vs,
      Derives text (.phrase .otherwise) (.otherwise o) vs →
        Derives text (.phrase .compound) (.action (.branch c b o)) (us ++ vs)) rest ts := by
  rw [announced_cons_same, branchWords, List.cons_append, List.append_assoc] at hts
  obtain ⟨word, ts, rfl, hword, hts⟩ := exists_cons_of_writes hts
  obtain ⟨cs, ts, rfl, hcondition, hts⟩ := exists_append_of_writes hts
  obtain ⟨colon, ts, rfl, hcolon, hts⟩ := exists_cons_of_writes hts
  obtain ⟨us, vs, rfl, ⟨b, hblock, hsame⟩, hvs⟩ := begins_block hne h hrest hts
  have hexpr := hc.spells_print.spellsPhrase text cs hcondition
  refine ⟨word :: (cs ++ colon :: us), vs, by simp, ⟨b, hsame, fun o os ho ↦ ?_⟩, hvs⟩
  have hbranch : Derives text (.phrase .branch) (.action (.branch c b o))
      (word :: (cs ++ colon :: (us ++ (os ++ [])))) :=
    .phrase (p := .branch) rfl (.token hword.1 (.cons hexpr (.token hcolon.1
      (.cons hblock (.cons ho .nil))))) rfl
  rw [List.append_nil] at hbranch
  have hcompound : Derives text (.phrase .compound) (.action (.branch c b o))
      (word :: (cs ++ colon :: (us ++ os))) :=
    .phrase (p := .compoundBranch) rfl (.single hbranch) rfl
  simpa using hcompound

theorem linesDerive_branch {c : Expr} (hc : c.Printable) {body : Block} (hne : body ≠ [])
    (h : ∀ s ∈ body, s.item.LinesDerive text (n + 1)) :
    (Stmt.branch c body none).LinesDerive text n := by
  intro rest hrest ts hts
  rw [Stmt.lines, List.cons_append] at hts
  obtain ⟨us, vs, rfl, ⟨b, hsame, hbranch⟩, hvs⟩ := begins_branch hc hne h hrest hts
  have hnothing : Derives text (.phrase .otherwise) (.otherwise none) [] :=
    .phrase (p := .noOtherwise) rfl (.single (.phrase (p := .nothing) rfl .nil rfl)) rfl
  have hcompound := hbranch none [] hnothing
  rw [List.append_nil] at hcompound
  refine ⟨us, vs, rfl, derivesStmt_compound hcompound ?_, hvs⟩
  rw [Stmt.unplaced, Stmt.unplaced, hsame]

theorem linesDerive_branch_otherwise {c : Expr} (hc : c.Printable) {body other : Block}
    (hne : body ≠ []) (h : ∀ s ∈ body, s.item.LinesDerive text (n + 1)) (hne' : other ≠ [])
    (h' : ∀ s ∈ other, s.item.LinesDerive text (n + 1)) :
    (Stmt.branch c body (some other)).LinesDerive text n := by
  intro rest hrest ts hts
  rw [Stmt.lines, List.cons_append, List.append_assoc, List.cons_append] at hts
  have helse : GoesOnAt n (⟨n, [.elseWord, .colon]⟩ :: (Block.lines (n + 1) other ++ rest)) := by
    intro l hl
    obtain rfl := Option.some.inj hl
    exact Nat.le_refl n
  obtain ⟨us, vs, rfl, ⟨b, hsame, hbranch⟩, hvs⟩ := begins_branch hc hne h helse hts
  rw [announced_cons_same] at hvs
  obtain ⟨word, vs, rfl, hword, hvs⟩ := exists_cons_of_writes hvs
  obtain ⟨colon, vs, rfl, hcolon, hvs⟩ := exists_cons_of_writes hvs
  obtain ⟨os, vs, rfl, ⟨b', hblock, hsame'⟩, hvs⟩ := begins_block hne' h' hrest hvs
  have hotherwise : Derives text (.phrase .otherwise) (.otherwise (some b'))
      (word :: colon :: (os ++ [])) :=
    .phrase (p := .otherwise) rfl (.token hword.1 (.token hcolon.1 (.cons hblock .nil))) rfl
  refine ⟨_, vs, ?_, derivesStmt_compound (hbranch (some b') _ hotherwise) ?_, hvs⟩
  · simp
  · rw [Stmt.unplaced, Stmt.unplaced, hsame, hsame']

end Statements

/-- The lines of a statement that can be printed derive it. -/
theorem Stmt.Printable.linesDerive {text : List Char} {s : Stmt} (h : s.Printable) (n : Nat) :
    s.LinesDerive text n := by
  induction h generalizing n with
  | eval h => exact linesDerive_eval h
  | @assign x _ b e h => exact linesDerive_assign x b h
  | @define f _ params _ body hne _ ih =>
    exact linesDerive_define f params hne fun s hs ↦ ih s hs (n + 1)
  | @branch c h body hne _ otherwise hne' _ ih ih' =>
    cases otherwise with
    | none => exact linesDerive_branch h hne fun s hs ↦ ih s hs (n + 1)
    | some other =>
      exact linesDerive_branch_otherwise h hne (fun s hs ↦ ih s hs (n + 1)) (hne' other rfl)
        fun s hs ↦ ih' other rfl s hs (n + 1)

/-- A program that the language can write is printed, and parsed as itself, but for the positions of
its statements. -/
theorem parse_print {b : Block} (h : b.Printable) :
    (parse (Block.print b)).map Block.unplaced = .ok (Block.unplaced b) := by
  obtain ⟨ts, hts, hdeliveries⟩ := h.exists_deliveries
  have hend : GoesOnAt 0 [] := fun l hl ↦ absurd hl (by simp)
  rw [← List.append_nil (Block.lines 0 b)] at hts
  have hbegins : Begins 0 (DerivesBlock (Block.print b).toList .statements b) [] ts :=
    begins_statements h.ne_nil (fun s hs ↦ (h.all s hs).linesDerive 0) hend hts
  obtain ⟨us, vs, rfl, ⟨b', hblock, hsame⟩, hvs⟩ := hbegins
  cases hvs
  have hprogram : Derives (Block.print b).toList (.phrase .program) (.block b') us :=
    .phrase (p := .program) rfl (.single hblock) rfl
  obtain ⟨d, hvalid, hsymbol, rfl, hvalue⟩ := hprogram
  have hparse : parse (Block.print b) = .ok b' := by
    rw [List.append_nil] at hdeliveries
    rw [parse_eq_readProgram, hdeliveries]
    exact readProgram_of_derivation hvalid hsymbol hvalue
  rw [hparse, ← hsame]
  rfl

/-- A branch with operands in parentheses and without, a call, and a text with escapes. -/
theorem parse_print_branch :
    (parse ("if not a == 1:\n    x = (a + 1) * - 2 ** b\nelse:\n" ++
      "    x += f(a, \"q\\\"\\n\")\n")).map Block.unplaced =
    .ok [⟨⟨1, 1⟩, .branch (.not (.join (.apply .eq) (.name "a") (.literal (.int 1))))
      [⟨⟨1, 1⟩, .assign "x" none (.join (.apply .mul)
        (.join (.apply .add) (.name "a") (.literal (.int 1)))
        (.signed (.known .neg) (.join (.apply .pow) (.literal (.int 2)) (.name "b"))))⟩]
      (some [⟨⟨1, 1⟩, .assign "x" (some (.known .add))
        (.call "f" [.name "a", .literal (.text "q\"\n")])⟩])⟩] := by
  have hint (n : Nat) (h : n < 10) : Expr.Printable (.literal (.int n)) := by
    have hlt : n < 10 ^ maxDigits := Nat.lt_of_lt_of_le h (Nat.le_self_pow (by decide) 10)
    refine .literal ⟨Int.natCast_nonneg n, ?_⟩
    rw [← Int.ofNat_lt, Int.natCast_pow] at hlt
    exact hlt
  have hname (x : String) (h : isName x = true) : Expr.Printable (.name x) := .name h
  have hcondition : Expr.Printable (.not (.join (.apply .eq) (.name "a") (.literal (.int 1)))) :=
    .not (.join _ (hname "a" (by decide)) (hint 1 (by decide)))
  have hproduct : Expr.Printable (.join (.apply .mul)
      (.join (.apply .add) (.name "a") (.literal (.int 1)))
      (.signed (.known .neg) (.join (.apply .pow) (.literal (.int 2)) (.name "b")))) :=
    .join _ (.join _ (hname "a" (by decide)) (hint 1 (by decide)))
      (.signed _ (.join _ (hint 2 (by decide)) (hname "b" (by decide))))
  have hcall : Expr.Printable (.call "f" [.name "a", .literal (.text "q\"\n")]) := by
    refine .call (by decide) ?_
    simp only [List.forall_mem_cons]
    exact ⟨hname "a" (by decide), .literal trivial, fun _ h ↦ absurd h List.not_mem_nil⟩
  have hbranch : Stmt.Printable (.branch (.not (.join (.apply .eq) (.name "a") (.literal (.int 1))))
      [⟨⟨1, 1⟩, .assign "x" none (.join (.apply .mul)
        (.join (.apply .add) (.name "a") (.literal (.int 1)))
        (.signed (.known .neg) (.join (.apply .pow) (.literal (.int 2)) (.name "b"))))⟩]
      (some [⟨⟨1, 1⟩, .assign "x" (some (.known .add))
        (.call "f" [.name "a", .literal (.text "q\"\n")])⟩])) := by
    refine .branch hcondition (List.cons_ne_nil _ _) ?_ ?_ ?_
    · rw [List.forall_mem_singleton]
      exact .assign (by decide) .plain hproduct
    · intro b hb
      rw [← Option.some.inj hb]
      exact List.cons_ne_nil _ _
    · intro b hb
      rw [← Option.some.inj hb, List.forall_mem_singleton]
      exact .assign (by decide) .add hcall
  have hparse := parse_print (b := [⟨⟨1, 1⟩, _⟩])
    ⟨List.cons_ne_nil _ _, List.forall_mem_singleton.2 hbranch⟩
  exact hparse

end Sangria
