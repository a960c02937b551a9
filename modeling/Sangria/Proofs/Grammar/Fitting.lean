import Mathlib.Data.List.Forall2
import Sangria.Proofs.Grammar.Derivation

/-!
# Phrases have meanings of their kind

What a phrase of each kind means, as a property of meanings (`Nonterminal.Admits`): an expression is
a tree of known operators, a block is not empty, and so on. If the parts of a production mean what
they are to mean, the production builds a meaning of its own kind (`build_of_fits`), with two
exceptions, both at literals: an integer literal may have too many digits, and the text of a real
literal may be no decimal.

So a valid derivation has a value of its kind, if it has one at all (`Derivation.admits_of_value`).
-/

namespace Sangria

theorem Expr.wellFormed_join (c : Connective) (l r : Expr) :
    (Expr.join c l r).wellFormed = (l.wellFormed && r.wellFormed) := by
  cases c <;> rfl

theorem Expr.wellFormedArgs_append (es es' : List Expr) :
    wellFormed.wellFormedArgs (es ++ es') =
      (wellFormed.wellFormedArgs es && wellFormed.wellFormedArgs es') := by
  induction es with
  | nil => rfl
  | cons e rest ih =>
    rw [List.cons_append, wellFormed.wellFormedArgs, wellFormed.wellFormedArgs, ih, Bool.and_assoc]

theorem Block.wellFormed_append (b b' : Block) :
    Block.wellFormed (b ++ b') = (Block.wellFormed b && Block.wellFormed b') := by
  induction b with
  | nil => rfl
  | cons s rest ih =>
    rw [List.cons_append, Block.wellFormed, Block.wellFormed, ih, Bool.and_assoc]

theorem Stmt.wellFormed_branch {c : Expr} {b : Block} {o : Option Block}
    (hc : c.wellFormed = true) (hb : Block.wellFormed b = true)
    (ho : ∀ b ∈ o, Block.wellFormed b = true) : (Stmt.branch c b o).wellFormed = true := by
  cases o with
  | none => rw [wellFormed, hc, hb]; rfl
  | some b' => rw [wellFormed, hc, hb, ho b' rfl]; rfl

/-- What a phrase of a kind may mean. -/
def Nonterminal.Admits (m : Meaning) : Nonterminal → Prop
  | .program | .statements | .block =>
    ∃ b, m = .block b ∧ b ≠ [] ∧ Block.wellFormed b = true
  | .statement => ∃ s, m = .statement s ∧ s.item.wellFormed = true
  | .simple | .assignment | .bare | .compound | .definition | .branch =>
    ∃ s, m = .action s ∧ s.wellFormed = true
  | .mark => ∃ b, m = .binding b
  | .paramList | .params => ∃ xs, m = .params xs
  | .otherwise => ∃ o, m = .otherwise o ∧ ∀ b ∈ o, b ≠ [] ∧ Block.wellFormed b = true
  | .expr | .atom | .call | .literal => ∃ e, m = .expr e ∧ e.wellFormed = true
  | .argList | .args => ∃ es, m = .args es ∧ Expr.wellFormed.wellFormedArgs es = true
  | .nothing => m = .nothing

/-- What a symbol may mean. -/
def GrammarSymbol.Admits (m : Meaning) : GrammarSymbol → Prop
  | .token k => ∃ t, m = .token t ∧ t.kind = k
  | .phrase n => n.Admits m

/-- What comes of a production whose parts mean what they are to mean. -/
inductive Builds (p : Production) (ms : List Meaning) : Except BuildFault Meaning → Prop
  /-- A meaning of its own kind. -/
  | whole {m : Meaning} (admits : p.lhs.Admits m) : Builds p ms (.ok m)
  /-- The fault of an integer literal of too many digits. -/
  | tooLong {t : Lexeme} (production : p = .literal .int) (part : ms = [.token t])
      (kind : t.kind = .literal .int) (long : maxDigits < t.text.toList.length) :
      Builds p ms (.error (.tooLong t.text.toList.length))
  /-- The fault of a real literal that is no decimal. -/
  | unreadable {t : Lexeme} (production : p = .literal .float) (part : ms = [.token t])
      (kind : t.kind = .literal .float) (text : readDecimal t.text.toList = none) :
      Builds p ms (.error .misshapen)

/-- Parts that mean what a production asks for build a meaning of its kind, but for literals. -/
theorem build_of_fits (text : List Char) (start : Nat) {p : Production} {ms : List Meaning}
    (h : List.Forall₂ GrammarSymbol.Admits ms p.rhs) : Builds p ms (build text start p ms) := by
  cases p with simp only [Production.rhs, List.forall₂_cons_right_iff, List.forall₂_nil_right_iff,
    GrammarSymbol.Admits, Nonterminal.Admits] at h
  | program =>
    obtain ⟨_, _, ⟨b, rfl, hb⟩, rfl, rfl⟩ := h
    exact .whole ⟨b, rfl, hb⟩
  | nextStatement =>
    obtain ⟨_, _, ⟨b, rfl, -, hb⟩, ⟨_, _, ⟨s, rfl, hs⟩, rfl, rfl⟩, rfl⟩ := h
    refine .whole ⟨b ++ [s], rfl, by simp, ?_⟩
    rw [Block.wellFormed_append, hb, Block.wellFormed, hs, Block.wellFormed]
    rfl
  | firstStatement =>
    obtain ⟨_, _, ⟨s, rfl, hs⟩, rfl, rfl⟩ := h
    refine .whole ⟨[s], rfl, by simp, ?_⟩
    rw [Block.wellFormed, hs, Block.wellFormed]
    rfl
  | simple =>
    obtain ⟨_, _, ⟨s, rfl, hs⟩, ⟨_, _, ⟨t, rfl, -⟩, rfl, rfl⟩, rfl⟩ := h
    exact .whole ⟨_, rfl, hs⟩
  | compound =>
    obtain ⟨_, _, ⟨s, rfl, hs⟩, rfl, rfl⟩ := h
    exact .whole ⟨_, rfl, hs⟩
  | simpleAssignment | simpleBare | compoundDefinition | compoundBranch =>
    obtain ⟨_, _, ⟨s, rfl, hs⟩, rfl, rfl⟩ := h
    exact .whole ⟨s, rfl, hs⟩
  | assignment =>
    obtain ⟨_, _, ⟨x, rfl, -⟩, ⟨_, _, ⟨b, rfl⟩, ⟨_, _, ⟨e, rfl, he⟩, rfl, rfl⟩, rfl⟩, rfl⟩ := h
    refine .whole ⟨_, rfl, ?_⟩
    cases b <;> exact he
  | mark b =>
    obtain ⟨_, _, ⟨t, rfl, -⟩, rfl, rfl⟩ := h
    exact .whole ⟨b, rfl⟩
  | bare =>
    obtain ⟨_, _, ⟨e, rfl, he⟩, rfl, rfl⟩ := h
    exact .whole ⟨_, rfl, he⟩
  | definition =>
    obtain ⟨_, _, ⟨_, rfl, -⟩, ⟨_, _, ⟨f, rfl, -⟩, ⟨_, _, ⟨_, rfl, -⟩, ⟨_, _, ⟨xs, rfl⟩,
      ⟨_, _, ⟨_, rfl, -⟩, ⟨_, _, ⟨_, rfl, -⟩, ⟨_, _, ⟨b, rfl, -, hb⟩, rfl, rfl⟩, rfl⟩, rfl⟩, rfl⟩,
      rfl⟩, rfl⟩, rfl⟩ := h
    exact .whole ⟨_, rfl, hb⟩
  | someParams =>
    obtain ⟨_, _, ⟨xs, rfl⟩, rfl, rfl⟩ := h
    exact .whole ⟨xs, rfl⟩
  | noParams =>
    obtain ⟨_, _, rfl, rfl, rfl⟩ := h
    exact .whole ⟨[], rfl⟩
  | firstParam =>
    obtain ⟨_, _, ⟨x, rfl, -⟩, rfl, rfl⟩ := h
    exact .whole ⟨_, rfl⟩
  | nextParam =>
    obtain ⟨_, _, ⟨xs, rfl⟩, ⟨_, _, ⟨_, rfl, -⟩, ⟨_, _, ⟨x, rfl, -⟩, rfl, rfl⟩, rfl⟩, rfl⟩ := h
    exact .whole ⟨_, rfl⟩
  | branch =>
    obtain ⟨_, _, ⟨_, rfl, -⟩, ⟨_, _, ⟨c, rfl, hc⟩, ⟨_, _, ⟨_, rfl, -⟩, ⟨_, _, ⟨b, rfl, -, hb⟩,
      ⟨_, _, ⟨o, rfl, ho⟩, rfl, rfl⟩, rfl⟩, rfl⟩, rfl⟩, rfl⟩ := h
    exact .whole ⟨_, rfl, Stmt.wellFormed_branch hc hb fun b hb ↦ (ho b hb).2⟩
  | elif =>
    obtain ⟨_, _, ⟨_, rfl, -⟩, ⟨_, _, ⟨c, rfl, hc⟩, ⟨_, _, ⟨_, rfl, -⟩, ⟨_, _, ⟨b, rfl, -, hb⟩,
      ⟨_, _, ⟨o, rfl, ho⟩, rfl, rfl⟩, rfl⟩, rfl⟩, rfl⟩, rfl⟩ := h
    refine .whole ⟨_, rfl, ?_⟩
    intro b' hb'
    obtain rfl := Option.some.inj hb'
    refine ⟨by simp, ?_⟩
    rw [Block.wellFormed, Stmt.wellFormed_branch hc hb fun b hb ↦ (ho b hb).2, Block.wellFormed]
    rfl
  | otherwise =>
    obtain ⟨_, _, ⟨_, rfl, -⟩, ⟨_, _, ⟨_, rfl, -⟩, ⟨_, _, ⟨b, rfl, hb⟩, rfl, rfl⟩, rfl⟩, rfl⟩ := h
    exact .whole ⟨some b, rfl, fun b' hb' ↦ Option.some.inj hb' ▸ hb⟩
  | noOtherwise =>
    obtain ⟨_, _, rfl, rfl, rfl⟩ := h
    exact .whole ⟨none, rfl, fun b hb ↦ absurd hb (by simp)⟩
  | block =>
    obtain ⟨_, _, ⟨_, rfl, -⟩, ⟨_, _, ⟨_, rfl, -⟩, ⟨_, _, ⟨b, rfl, hb⟩, ⟨_, _, ⟨_, rfl, -⟩, rfl,
      rfl⟩, rfl⟩, rfl⟩, rfl⟩ := h
    exact .whole ⟨b, rfl, hb⟩
  | join c =>
    obtain ⟨_, _, ⟨l, rfl, hl⟩, ⟨_, _, ⟨_, rfl, -⟩, ⟨_, _, ⟨r, rfl, hr⟩, rfl, rfl⟩, rfl⟩, rfl⟩ := h
    refine .whole ⟨_, rfl, ?_⟩
    rw [Expr.wellFormed_join, hl, hr]
    rfl
  | negation | signed =>
    obtain ⟨_, _, ⟨_, rfl, -⟩, ⟨_, _, ⟨e, rfl, he⟩, rfl, rfl⟩, rfl⟩ := h
    exact .whole ⟨_, rfl, he⟩
  | atom | literalAtom | callAtom =>
    obtain ⟨_, _, ⟨e, rfl, he⟩, rfl, rfl⟩ := h
    exact .whole ⟨e, rfl, he⟩
  | parenthesized =>
    obtain ⟨_, _, ⟨_, rfl, -⟩, ⟨_, _, ⟨e, rfl, he⟩, ⟨_, _, ⟨_, rfl, -⟩, rfl, rfl⟩, rfl⟩, rfl⟩ := h
    exact .whole ⟨e, rfl, he⟩
  | nameAtom =>
    obtain ⟨_, _, ⟨x, rfl, -⟩, rfl, rfl⟩ := h
    exact .whole ⟨_, rfl, rfl⟩
  | call =>
    obtain ⟨_, _, ⟨f, rfl, -⟩, ⟨_, _, ⟨_, rfl, -⟩, ⟨_, _, ⟨es, rfl, hes⟩, ⟨_, _, ⟨_, rfl, -⟩, rfl,
      rfl⟩, rfl⟩, rfl⟩, rfl⟩ := h
    exact .whole ⟨_, rfl, hes⟩
  | someArgs =>
    obtain ⟨_, _, ⟨es, rfl, hes⟩, rfl, rfl⟩ := h
    exact .whole ⟨es, rfl, hes⟩
  | noArgs =>
    obtain ⟨_, _, rfl, rfl, rfl⟩ := h
    exact .whole ⟨[], rfl, rfl⟩
  | firstArg =>
    obtain ⟨_, _, ⟨e, rfl, he⟩, rfl, rfl⟩ := h
    refine .whole ⟨[e], rfl, ?_⟩
    rw [Expr.wellFormed.wellFormedArgs, he]
    rfl
  | nextArg =>
    obtain
      ⟨_, _, ⟨es, rfl, hes⟩, ⟨_, _, ⟨_, rfl, -⟩, ⟨_, _, ⟨e, rfl, he⟩, rfl, rfl⟩, rfl⟩, rfl⟩ := h
    refine .whole ⟨_, rfl, ?_⟩
    rw [Expr.wellFormedArgs_append, hes, Expr.wellFormed.wellFormedArgs, he]
    rfl
  | literal l =>
    obtain ⟨_, _, ⟨t, rfl, ht⟩, rfl, rfl⟩ := h
    cases l with
    | int =>
      show Builds _ _ ((literalValue .int t.text.toList).map fun v ↦ .expr (.literal v))
      rw [literalValue]
      split
      · rename_i hlong
        exact .tooLong rfl rfl ht hlong
      · exact .whole ⟨_, rfl, rfl⟩
    | float =>
      show Builds _ _ ((literalValue .float t.text.toList).map fun v ↦ .expr (.literal v))
      rw [literalValue]
      split
      · exact .whole ⟨_, rfl, rfl⟩
      · rename_i hnone
        exact .unreadable rfl rfl ht hnone
    | string | trueWord | falseWord | noneWord => exact .whole ⟨_, rfl, rfl⟩
  | nothing =>
    subst h
    exact .whole rfl

namespace Derivation

/-- The values of parts are admitted by the symbols of the parts. -/
theorem forall₂_admits {text : List Char} {xs : List GrammarSymbol} {parts : List Derivation}
    {ms : List Meaning} (hgrammar : parts.map symbol = xs)
    (hms : List.Forall₂ (fun d m ↦ d.value text = .ok m) parts ms)
    (h : ∀ d ∈ parts, ∀ m, d.value text = .ok m → d.symbol.Admits m) :
    List.Forall₂ GrammarSymbol.Admits ms xs := by
  subst hgrammar
  induction hms with
  | nil => exact .nil
  | @cons d m ds ms hd _ ih =>
    rw [List.forall_mem_cons] at h
    exact .cons (h.1 m hd) (ih h.2)

/-- A valid derivation has a value that its symbol admits, if it has one. -/
theorem admits_of_value {text : List Char} {d : Derivation} (hd : d.Valid) {m : Meaning}
    (h : d.value text = .ok m) : d.symbol.Admits m := by
  induction d generalizing m with
  | token t =>
    obtain rfl := Except.ok.inj h
    exact ⟨t, rfl, rfl⟩
  | phrase p parts ih =>
    obtain ⟨hsound, hparts⟩ := valid_phrase_iff.1 hd
    obtain ⟨ms, hms, hbuild⟩ := value_phrase_eq_ok_iff.1 h
    have hbuilds := build_of_fits text (start (parts.flatMap tokens))
      (forall₂_admits hsound.grammar hms fun d hmem m ↦ ih d hmem (hparts d hmem))
    rw [hbuild] at hbuilds
    cases hbuilds with
    | whole hadmits => exact hadmits

end Derivation

end Sangria
