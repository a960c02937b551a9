import Sangria.Proofs.Grammar.Derivation
import Sangria.Proofs.Grammar.Enumeration

/-!
# How phrases begin

Which kinds of token a phrase can begin with (`Nonterminal.begins`), and which phrases can be of no
token at all (`Nonterminal.nullable`). Both are given by a table, checked against the productions
(`begins_of_rhs`, `nullable_of_rhs`), and lifted to derivations by induction
(`Derivation.begins_of_head?`, `Derivation.nullable_of_tokens_eq_nil`).
-/

namespace Sangria

/-- Whether a phrase can be of no token. -/
def Nonterminal.nullable : Nonterminal → Bool
  | .paramList | .otherwise | .argList | .nothing => true
  | _ => false

/-- Whether a symbol can stand for no token. -/
def GrammarSymbol.nullable : GrammarSymbol → Bool
  | .token _ => false
  | .phrase n => n.nullable

/-- Whether a phrase can begin with a token of a kind. -/
def Nonterminal.begins (k : Kind) : Nonterminal → Bool
  | .program | .statements | .statement => (statementStart? k).isSome
  | .simple | .bare | .expr | .argList | .args => (exprStart? k).isSome
  | .assignment | .paramList | .params | .call => k = .name
  | .mark => match k with
    | .binding _ => true
    | _ => false
  | .compound => k = .defWord || k = .ifWord
  | .definition => k = .defWord
  | .branch => k = .ifWord
  | .otherwise => k = .elifWord || k = .elseWord
  | .block => k = .newline
  | .atom => match k with
    | .name | .openParen | .literal _ => true
    | _ => false
  | .literal => match k with
    | .literal _ => true
    | _ => false
  | .nothing => false

/-- Whether a symbol can begin with a token of a kind. -/
def GrammarSymbol.begins (k : Kind) : GrammarSymbol → Bool
  | .token k' => k' = k
  | .phrase n => n.begins k

/-- Whether symbols in a row can begin with a token of a kind. -/
def beginsWith (k : Kind) : List GrammarSymbol → Bool
  | [] => false
  | x :: rest => x.begins k || (x.nullable && beginsWith k rest)

theorem nullable_of_rhs : ∀ p : Production,
    (p.rhs.all (·.nullable)) = true → p.lhs.nullable = true := by
  decide +kernel

theorem begins_of_rhs : ∀ (p : Production) (k : Kind),
    beginsWith k p.rhs = true → p.lhs.begins k = true := by
  decide +kernel

/-- The productions whose parts can all be of no token. -/
theorem mem_of_all_nullable : ∀ p : Production, (p.rhs.all (·.nullable)) = true →
    p ∈ [.noParams, .noOtherwise, .noArgs, .nothing] := by
  decide +kernel

/-- A phrase that begins with what can be of no token is of nothing else. -/
theorem rhs_of_nullable_head : ∀ p : Production,
    p.rhs.head?.any (·.nullable) = true → p.rhs.length = 1 := by
  decide +kernel

namespace Derivation

/-- A derivation of no token is one of a symbol that can stand for none. -/
theorem nullable_of_tokens_eq_nil {d : Derivation} (hd : d.Valid) (h : d.tokens = []) :
    d.symbol.nullable = true := by
  induction d with
  | token t => exact absurd h (List.cons_ne_nil _ _)
  | phrase p parts ih =>
    obtain ⟨hs, hparts⟩ := valid_phrase_iff.1 hd
    have hgrammar : parts.map symbol = p.rhs := hs.grammar
    refine nullable_of_rhs p ?_
    rw [← hgrammar, List.all_map, List.all_eq_true]
    rw [tokens_phrase, List.flatMap_eq_nil_iff] at h
    exact fun e he ↦ ih e he (hparts e he) (h e he)

/-- Derivations of no token among them are derivations of symbols that can stand for none. -/
theorem all_nullable_of_flatMap_eq_nil {ds : List Derivation} (hd : ∀ d ∈ ds, d.Valid)
    (h : ds.flatMap tokens = []) : (ds.map symbol).all (·.nullable) = true := by
  rw [List.all_map, List.all_eq_true]
  rw [List.flatMap_eq_nil_iff] at h
  exact fun d hmem ↦ nullable_of_tokens_eq_nil (hd d hmem) (h d hmem)

/-- Several derivations begin as their symbols do. -/
theorem beginsWith_of_head? {ds : List Derivation} {t : Lexeme}
    (hd : ∀ d ∈ ds, d.Valid)
    (ih : ∀ d ∈ ds, ∀ t ∈ d.tokens.head?, d.symbol.begins t.kind = true)
    (h : t ∈ (ds.flatMap tokens).head?) : beginsWith t.kind (ds.map symbol) = true := by
  induction ds with
  | nil => exact absurd h (by simp)
  | cons d rest ihr =>
    rw [List.map_cons, beginsWith, Bool.or_eq_true, Bool.and_eq_true]
    rw [List.flatMap_cons] at h
    rcases hnil : d.tokens with - | ⟨u, us⟩
    · rw [hnil, List.nil_append] at h
      exact .inr ⟨nullable_of_tokens_eq_nil (hd d List.mem_cons_self) hnil,
        ihr (fun e he ↦ hd e (List.mem_cons_of_mem _ he))
          (fun e he ↦ ih e (List.mem_cons_of_mem _ he)) h⟩
    · rw [hnil] at h
      exact .inl (ih d List.mem_cons_self t (by rw [hnil]; exact h))

/-- A derivation begins with a token that its symbol can begin with. -/
theorem begins_of_head? {d : Derivation} (hd : d.Valid) :
    ∀ t ∈ d.tokens.head?, d.symbol.begins t.kind = true := by
  induction d with
  | token t =>
    intro u hu
    obtain rfl := Option.some.inj (Option.mem_def.1 hu)
    simp [symbol, GrammarSymbol.begins]
  | phrase p parts ih =>
    intro t ht
    obtain ⟨hs, hparts⟩ := valid_phrase_iff.1 hd
    have hgrammar : parts.map symbol = p.rhs := hs.grammar
    refine begins_of_rhs p t.kind ?_
    rw [← hgrammar]
    rw [tokens_phrase] at ht
    exact beginsWith_of_head? hparts (fun e he ↦ ih e he (hparts e he)) ht

end Derivation

end Sangria
