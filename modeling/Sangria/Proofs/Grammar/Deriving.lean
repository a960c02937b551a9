import Sangria.Proofs.Grammar.Derivation

/-!
# Deriving a phrase from its parts

To show that tokens have a derivation that is meant, it is put together from derivations of the
parts. Outside the operators a production has no condition but its parts (`Derives.phrase`), so such
a derivation needs no mention of the tree: it is enough to say which tokens a symbol derives, and
with which meaning.
-/

namespace Sangria

/-- A symbol has a valid derivation of tokens with a meaning. -/
def Derives (text : List Char) (x : GrammarSymbol) (m : Meaning) (ts : List Lexeme) : Prop :=
  ∃ d : Derivation, d.Valid ∧ d.symbol = x ∧ d.tokens = ts ∧ d.value text = .ok m

/-- Symbols in a row have valid derivations. -/
inductive DerivesAll (text : List Char) :
    List GrammarSymbol → List Meaning → List Lexeme → Prop
  /-- No symbols. -/
  | nil : DerivesAll text [] [] []
  /-- One symbol and others. -/
  | cons {x : GrammarSymbol} {m : Meaning} {ts ts' : List Lexeme} {xs : List GrammarSymbol}
      {ms : List Meaning} (first : Derives text x m ts) (rest : DerivesAll text xs ms ts') :
      DerivesAll text (x :: xs) (m :: ms) (ts ++ ts')

variable {text : List Char}

/-- A token derives itself. -/
theorem Derives.token (t : Lexeme) : Derives text (.token t.kind) (.token t) [t] :=
  ⟨.token t, Derivation.valid_token t, rfl, rfl, rfl⟩

theorem Derives.of_kind {t : Lexeme} {k : Kind} (h : t.kind = k) :
    Derives text (.token k) (.token t) [t] :=
  h ▸ Derives.token t

/-- One token and the parts behind it. -/
theorem DerivesAll.token {t : Lexeme} {k : Kind} (h : t.kind = k) {xs : List GrammarSymbol}
    {ms : List Meaning} {ts : List Lexeme} (rest : DerivesAll text xs ms ts) :
    DerivesAll text (.token k :: xs) (.token t :: ms) (t :: ts) :=
  .cons (.of_kind h) rest

/-- A single part. -/
theorem DerivesAll.single {x : GrammarSymbol} {m : Meaning} {ts : List Lexeme}
    (h : Derives text x m ts) : DerivesAll text [x] [m] ts := by
  have hnil : DerivesAll text [] [] [] := .nil
  have hall := DerivesAll.cons h hnil
  rwa [List.append_nil] at hall

theorem DerivesAll.exists_parts {xs : List GrammarSymbol} {ms : List Meaning} {ts : List Lexeme}
    (h : DerivesAll text xs ms ts) :
    ∃ parts : List Derivation, (∀ d ∈ parts, d.Valid) ∧ parts.map Derivation.symbol = xs ∧
      parts.flatMap Derivation.tokens = ts ∧
      List.Forall₂ (fun d m ↦ d.value text = .ok m) parts ms := by
  induction h with
  | nil => exact ⟨[], fun _ hd ↦ absurd hd List.not_mem_nil, rfl, rfl, .nil⟩
  | cons hfirst _ ih =>
    obtain ⟨d, hvalid, rfl, rfl, hvalue⟩ := hfirst
    obtain ⟨parts, hparts, rfl, rfl, hvalues⟩ := ih
    exact ⟨d :: parts, List.forall_mem_cons.2 ⟨hvalid, hparts⟩, rfl, List.flatMap_cons,
      .cons hvalue hvalues⟩

/-- What has parts and no precedence is derived. -/
theorem exists_phrase {p : Production} (hp : p.precedence? = none) {ms : List Meaning}
    {ts : List Lexeme} (h : DerivesAll text p.rhs ms ts) {m : Meaning}
    (hbuild : build text (Derivation.start ts) p ms = .ok m) :
    ∃ parts, (Derivation.phrase p parts).Valid ∧ (Derivation.phrase p parts).tokens = ts ∧
      (Derivation.phrase p parts).value text = .ok m := by
  obtain ⟨parts, hvalid, hgrammar, rfl, hvalues⟩ := h.exists_parts
  refine ⟨parts, Derivation.valid_phrase_iff.2 ⟨⟨hgrammar, ?_, ?_⟩, hvalid⟩,
    Derivation.tokens_phrase p parts, ?_⟩
  · cases p <;> trivial
  · intro outer houter
    rw [hp] at houter
    exact absurd houter (by simp)
  · rw [Derivation.value_phrase hvalues, hbuild]

/-- A production without precedence derives its phrase from its parts. -/
theorem Derives.phrase {p : Production} (hp : p.precedence? = none) {ms : List Meaning}
    {ts : List Lexeme} (h : DerivesAll text p.rhs ms ts) {m : Meaning}
    (hbuild : build text (Derivation.start ts) p ms = .ok m) :
    Derives text (.phrase p.lhs) m ts := by
  obtain ⟨parts, hvalid, htokens, hvalue⟩ := exists_phrase hp h hbuild
  exact ⟨.phrase p parts, hvalid, rfl, htokens, hvalue⟩

end Sangria
