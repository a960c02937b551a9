import Sangria.Proofs.Grammar.Derivation

/-!
# Where the statements of a program stand

The positions of a program are those of its statements, also of the ones inside others
(`Block.positions`, `Block.statements`). The statements of a program that is read off tokens are made
by nodes of its derivation, one by each node that makes one, in the same order, and a statement is
given the position where its phrase begins (`Derivation.makes_statements`). So the positions are
those of offsets up to which the tokens stand (`Derivation.exists_of_mem_positions`).
-/

namespace Sangria

/-! ### Trees -/

mutual

/-- The positions of the statements inside a statement. -/
def Stmt.positions : Stmt → List Position
  | .define _ _ body => Block.positions body
  | .branch _ body none => Block.positions body
  | .branch _ body (some other) => Block.positions body ++ Block.positions other
  | _ => []

/-- The positions of the statements of a block, each in front of those inside it. -/
def Block.positions : List (Located Stmt) → List Position
  | [] => []
  | ⟨p, s⟩ :: rest => p :: (s.positions ++ Block.positions rest)

end

@[simp]
theorem Stmt.positions_branch (c : Expr) (body : Block) (otherwise : Option Block) :
    (Stmt.branch c body otherwise).positions =
      Block.positions body ++ otherwise.elim [] Block.positions := by
  cases otherwise with
  | none => rw [Stmt.positions, Option.elim_none, List.append_nil]
  | some other => rfl

@[simp]
theorem Block.positions_nil : Block.positions [] = [] :=
  rfl

@[simp]
theorem Block.positions_cons (s : Located Stmt) (rest : Block) :
    Block.positions (s :: rest) = s.position :: (s.item.positions ++ Block.positions rest) :=
  rfl

/-- All positions of a block are among some exactly if those of each statement are. -/
theorem Block.positions_subset_iff {b : Block} {P : List Position} :
    Block.positions b ⊆ P ↔ ∀ s ∈ b, s.position ∈ P ∧ s.item.positions ⊆ P := by
  induction b with
  | nil => simp
  | cons s rest ih =>
    rw [Block.positions_cons, List.cons_subset, List.append_subset, ih, List.forall_mem_cons,
      and_assoc]

mutual

/-- The statements inside a statement. -/
def Stmt.inner : Stmt → List (Located Stmt)
  | .define _ _ body => Block.statements body
  | .branch _ body none => Block.statements body
  | .branch _ body (some other) => Block.statements body ++ Block.statements other
  | _ => []

/-- The statements of a block, each in front of those inside it. -/
def Block.statements : List (Located Stmt) → List (Located Stmt)
  | [] => []
  | ⟨p, s⟩ :: rest => ⟨p, s⟩ :: (s.inner ++ Block.statements rest)

end

/-- The positions of a block are those of its statements. -/
theorem Block.positions_eq_map (b : Block) :
    Block.positions b = (Block.statements b).map (·.position) := by
  induction b using Block.induction with
  | nil => rfl
  | eval p e rest ih => exact congrArg (p :: ·) ih
  | assign p x op e rest ih => exact congrArg (p :: ·) ih
  | define p f params body rest ihBody ih =>
    simp only [positions, Stmt.positions, statements, Stmt.inner, List.map_cons, List.map_append,
      ihBody, ih]
  | branch p c body rest ihBody ih =>
    simp only [positions, Stmt.positions, statements, Stmt.inner, List.map_cons, List.map_append,
      ihBody, ih]
  | branchElse p c body other rest ihBody ihOther ih =>
    simp only [positions, Stmt.positions, statements, Stmt.inner, List.map_cons, List.map_append,
      ihBody, ihOther, ih]

@[simp]
theorem Stmt.inner_eval (e : Expr) : (Stmt.eval e).inner = [] :=
  rfl

@[simp]
theorem Stmt.inner_assign (x : String) (op : Option (Written Operator)) (e : Expr) :
    (Stmt.assign x op e).inner = [] :=
  rfl

@[simp]
theorem Stmt.inner_define (f : String) (params : List String) (body : Block) :
    (Stmt.define f params body).inner = Block.statements body :=
  rfl

@[simp]
theorem Stmt.inner_branch (c : Expr) (body : Block) (otherwise : Option Block) :
    (Stmt.branch c body otherwise).inner =
      Block.statements body ++ otherwise.elim [] Block.statements := by
  cases otherwise with
  | none => rw [Stmt.inner, Option.elim_none, List.append_nil]
  | some other => rfl

@[simp]
theorem Block.statements_nil : Block.statements [] = [] :=
  rfl

@[simp]
theorem Block.statements_cons (s : Located Stmt) (rest : Block) :
    Block.statements (s :: rest) = s :: (s.item.inner ++ Block.statements rest) :=
  rfl

@[simp]
theorem Block.statements_append (b b' : Block) :
    Block.statements (b ++ b') = Block.statements b ++ Block.statements b' := by
  induction b with
  | nil => rfl
  | cons s rest ih => simp [ih]

/-! ### Phrases -/

/-- The statements in what a phrase means. -/
def Meaning.statements : Meaning → List (Located Stmt)
  | .action s => s.inner
  | .statement s => s :: s.item.inner
  | .block b => Block.statements b
  | .otherwise o => o.elim [] Block.statements
  | _ => []

/-- Whether a production makes a statement with its position: of a phrase with its end, or of a
further condition, which is a branch inside another. -/
def Production.isStatement : Production → Bool
  | .simple | .compound | .elif => true
  | _ => false

/-- What a production makes when it makes a statement. -/
def Meaning.IsStatement (p : Production) (s : Located Stmt) (m : Meaning) : Prop :=
  match p with
  | .elif => m = .otherwise (some [s])
  | _ => m = .statement s

theorem Meaning.IsStatement.eq_or_eq {p : Production} {s : Located Stmt} {m : Meaning}
    (h : m.IsStatement p s) : m = .statement s ∨ m = .otherwise (some [s]) := by
  unfold IsStatement at h
  split at h
  · exact .inr h
  · exact .inl h

/-- The statements of a phrase are those of its parts, with its own in front of them where the
production makes one. That stands where the phrase does. -/
theorem statements_of_build {text : List Char} {start : Nat} {p : Production} {ms : List Meaning}
    {m : Meaning} (h : build text start p ms = .ok m) :
    (p.isStatement = false ∧ m.statements = ms.flatMap Meaning.statements) ∨
      p.isStatement = true ∧ ∃ s : Located Stmt, m.IsStatement p s ∧
        s.position = .ofOffset text start ∧ m.statements = s :: ms.flatMap Meaning.statements := by
  unfold build at h
  split at h
  case h_36 l t =>
    -- a literal, which need not have a value
    rcases hvalue : literalValue l t.text.toList with f | v
    · rw [hvalue] at h
      exact absurd h (by simp [Except.map])
    · rw [hvalue] at h
      obtain rfl := Except.ok.inj h
      exact .inl ⟨rfl, rfl⟩
  case h_38 => exact absurd h (by simp)
  all_goals
    obtain rfl := Except.ok.inj h
    simp [Meaning.statements, Production.isStatement, Meaning.IsStatement]

namespace Derivation

theorem start_le {ts : List Lexeme} {n : Nat} (h : ∀ t ∈ ts, t.offset ≤ n) : start ts ≤ n := by
  cases ts with
  | nil => exact Nat.zero_le n
  | cons t ts => exact h t List.mem_cons_self

/-- What is related to something in a list is related to something in the other. -/
theorem exists_of_forall₂ {α β : Type} {R : α → β → Prop} {as : List α} {bs : List β} {b : β}
    (h : List.Forall₂ R as bs) (hb : b ∈ bs) : ∃ a ∈ as, R a b := by
  induction h with
  | nil => exact absurd hb List.not_mem_nil
  | @cons a _ as _ ha _ ih =>
    rcases List.mem_cons.1 hb with rfl | hb
    · exact ⟨a, List.mem_cons_self, ha⟩
    · obtain ⟨a', ha', hr⟩ := ih hb
      exact ⟨a', List.mem_cons_of_mem a ha', hr⟩

/-- Whether a node makes a statement with its position. -/
def isStatement : Derivation → Bool
  | phrase p _ => p.isStatement
  | token _ => false

/-- A node makes a statement, which stands where the first of its tokens does. -/
inductive Makes (text : List Char) : Derivation → Located Stmt → Prop
  /-- What its production makes is the statement. -/
  | intro {p : Production} {parts : List Derivation} {m : Meaning} {s : Located Stmt}
      (production : p.isStatement = true) (value : (phrase p parts).value text = .ok m)
      (statement : m.IsStatement p s)
      (position : s.position = .ofOffset text (start (parts.flatMap tokens))) :
      Makes text (phrase p parts) s

/-- The statements in what a derivation means are made by its nodes, one by each that makes one, and
in the order of the nodes. -/
theorem makes_statements {text : List Char} {d : Derivation} {m : Meaning}
    (h : d.value text = .ok m) :
    List.Forall₂ (Makes text) (d.nodes.filter isStatement) m.statements := by
  induction d generalizing m with
  | token t =>
    obtain rfl := Except.ok.inj h
    exact .nil
  | phrase p parts ih =>
    obtain ⟨ms, hparts, hbuild⟩ := value_phrase_eq_ok_iff.1 h
    have hinner : List.Forall₂ (Makes text) ((parts.flatMap nodes).filter isStatement)
        (ms.flatMap Meaning.statements) := by
      rw [List.filter_flatMap]
      refine List.rel_flatMap (R := fun d m ↦ d ∈ parts ∧ d.value text = .ok m)
        ((List.forall₂_and_left _ _).2 ⟨fun _ hd ↦ hd, hparts⟩) fun d m hd ↦ ?_
      exact ih d hd.1 hd.2
    rw [nodes, nodesOf_eq]
    rcases statements_of_build hbuild with ⟨hp, hstatements⟩ | ⟨hp, s, hs, hposition, hstatements⟩
    · rw [hstatements, List.filter_cons_of_neg (by simp [isStatement, hp])]
      exact hinner
    · rw [hstatements, List.filter_cons_of_pos (by simp [isStatement, hp])]
      exact .cons (.intro hp h hs hposition) hinner

/-- The tokens of a node are tokens of the whole. -/
theorem tokens_infix_of_mem_nodes {d n : Derivation} (h : n ∈ d.nodes) : n.tokens <:+: d.tokens := by
  induction d with
  | token t =>
    obtain rfl := List.mem_singleton.1 h
    exact List.infix_rfl
  | phrase p parts ih =>
    rw [nodes, nodesOf_eq] at h
    rcases List.mem_cons.1 h with rfl | h
    · exact List.infix_rfl
    · obtain ⟨e, he, hn⟩ := List.mem_flatMap.1 h
      have hwithin := ih e he hn
      obtain ⟨front, back, rfl⟩ := List.append_of_mem he
      rw [tokens_phrase, List.flatMap_append, List.flatMap_cons]
      exact hwithin.trans ⟨front.flatMap tokens, back.flatMap tokens, List.append_assoc _ _ _⟩

/-- The positions in what a derivation means are those of offsets up to which its tokens stand. -/
theorem exists_of_mem_positions {text : List Char} {d : Derivation} {m : Meaning} {n : Nat}
    (h : d.value text = .ok m) (htokens : ∀ t ∈ d.tokens, t.offset ≤ n) :
    ∀ p ∈ m.statements.map (·.position), ∃ k ≤ n, p = .ofOffset text k := by
  intro p hp
  obtain ⟨s, hs, rfl⟩ := List.mem_map.1 hp
  obtain ⟨e, he, hmakes⟩ := exists_of_forall₂ (makes_statements h) hs
  have hwithin := tokens_infix_of_mem_nodes (List.mem_of_mem_filter he)
  obtain ⟨-, -, -, hposition⟩ := hmakes
  rw [tokens_phrase] at hwithin
  exact ⟨_, start_le fun t ht ↦ htokens t (hwithin.subset ht), hposition⟩

end Derivation

end Sangria
