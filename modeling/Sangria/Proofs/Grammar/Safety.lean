import Sangria.Proofs.Grammar.Fitting
import Sangria.Proofs.Grammar.Soundness

/-!
# Reading does not get stuck

A reader whose stack spells derivations relies on nothing that is not there: the parts of a phrase
lie on the stack, they mean what the production asks for, and a whole program is a block. What
remains are two ways to fail: the state refuses the token, or an integer literal has too many digits
(`Stack.Spells.fault_of_settled`). The second can only happen right behind the literal's token, when
the next token shows that an expression may end there.

One thing is left to the source of the tokens: the text of a real literal must be a decimal
(`Lexeme.Readable`).
-/

namespace Sangria

/-- The text of a real literal is a decimal. -/
def Lexeme.Readable (t : Lexeme) : Prop :=
  t.kind = .literal .float → (readDecimal t.text.toList).isSome = true

/-- A token is an integer literal of so many digits, and that is too many. -/
structure Lexeme.IsLong (t : Lexeme) (digits : Nat) : Prop where
  /-- It is an integer literal. -/
  kind : t.kind = .literal .int
  /-- It has so many digits. -/
  length : t.text.toList.length = digits
  /-- That is more than an integer may have. -/
  long : maxDigits < digits

/-- A stack with a literal's token on top is not one where phrases were put together. -/
theorem Stack.Reduces.eq_of_state_literal {text : List Char} {t : Lexeme} {stack stack' : Stack}
    {l : LiteralKind} (h : stack.Reduces text t stack') (hs : stack'.state = .literal l) :
    stack = stack' := by
  induction h with
  | refl => rfl
  | step _ hr hrest ih =>
    obtain rfl := ih hs
    obtain ⟨-, s, m, start, hgoto, rfl⟩ := Stack.exists_of_reduce_eq_ok hr
    exact absurd hs (State.ne_literal_of_goto hgoto l)

namespace Stack.Spells

variable {text : List Char} {stack stack' : Stack} {ds : List Derivation} {k : Kind} {t : Lexeme}

/-- A phrase cannot be put together only if it is an integer literal of too many digits, which is
then on top of the stack. -/
theorem fault_of_reduce {p : Production} (h : stack.Spells text ds)
    (hread : ∀ u ∈ readTokens ds, u.Readable) (ha : action stack.state k = some (.reduce p))
    {next : Nat} {f : ReadFault} (hr : stack.reduce text next p = .error f) :
    p = .literal .int ∧ ∃ u digits, f = .tooLong digits ∧ u.IsLong digits ∧
      stack.head?.map (·.meaning) = some (.token u) := by
  obtain ⟨parts, rest, s, start, rfl, hparts, hmeans, -, -, -, heq⟩ := h.reduce_eq ha next
  have hvalues := values_of_means hmeans
  have hbuilds := build_of_fits text (Derivation.start (parts.flatMap Derivation.tokens))
    (Derivation.forall₂_admits hparts hvalues fun d hd m ↦
      Derivation.admits_of_value (valid_of_means hmeans d hd))
  rw [Derivation.value_phrase hvalues, hr] at heq
  generalize build text _ p _ = made at heq hbuilds
  generalize hms : (stack.take p.rhs.length).reverse.map (·.meaning) = ms at hbuilds hvalues
  cases hbuilds with
  | whole => exact absurd heq (by simp)
  | tooLong hp hpart hkind hlong =>
    subst hp hpart
    refine ⟨rfl, _, _, Except.error.inj heq, ⟨hkind, rfl, hlong⟩, ?_⟩
    cases stack with
    | nil => exact absurd hms (by simp)
    | cons c below => exact congrArg List.head? hms
  | @unreadable u hp hpart hkind hnone =>
    subst hp hpart
    -- the part is the token itself, and it was read
    cases hvalues with
    | @cons d _ _ _ hd hnil =>
      cases hnil
      cases d with
      | token u' =>
        obtain rfl : u' = u := Meaning.token.inj (Except.ok.inj hd)
        have hsome := hread u' (by simp [readTokens, Derivation.tokens]) hkind
        rw [hnone] at hsome
        exact absurd hsome (by simp)
      | phrase q qs => exact absurd hparts (by simp [Derivation.symbol, Production.rhs])

/-- Reading before a token fails only because the token is refused, or because an integer literal of
too many digits is on top of the stack and the token may stand behind an expression. -/
theorem fault_of_settled (h : stack.Spells text ds) (hread : ∀ u ∈ readTokens ds, u.Readable)
    (hk : ClosesAhead t.kind ds) {f : ReadFault} (hs : stack.settled text t = .error f) :
    (∃ s, f = .refused s) ∨
      ∃ u digits, f = .tooLong digits ∧ u.IsLong digits ∧ stack.state = .literal .int ∧
        stack.head?.map (·.meaning) = some (.token u) ∧ followsExpr t.kind = true := by
  obtain ⟨stack', hreduces, hrests⟩ := stack.exists_rests text t
  obtain ⟨ds', h', -, htokens⟩ := h.of_reduces hreduces hk
  rw [hs] at hrests
  generalize hf : (.error f : Except ReadFault Settled) = outcome at hrests
  cases hrests with
  | refused => exact .inl ⟨_, Except.error.inj hf⟩
  | ready => exact absurd hf (by simp)
  | complete => exact absurd hf (by simp)
  | shapeless ha hshape =>
    -- what is on top of a complete source is a block
    cases h' with
    | nil => exact absurd (State.eq_of_accept ha).1 (by simp [Stack.state])
    | @cons c below d ds top rest =>
      obtain ⟨d, -, hsymbol, hvalid, hvalue⟩ := (Spells.cons top rest).of_accept ha
      have hadmits := Derivation.admits_of_value hvalid hvalue
      rw [hsymbol] at hadmits
      obtain ⟨b, hb, -⟩ : Nonterminal.Admits c.meaning .program := hadmits
      exact absurd hb (hshape c below b rfl)
  | faulty ha hr =>
    obtain rfl := Except.error.inj hf
    rw [← htokens] at hread
    obtain ⟨rfl, u, digits, hf, hlong, htop⟩ := h'.fault_of_reduce hread ha hr
    obtain ⟨hstate, hfollows⟩ := State.eq_of_reduce_literal ha
    refine .inr ⟨u, digits, hf, hlong, ?_⟩
    obtain rfl := hreduces.eq_of_state_literal hstate
    exact ⟨hstate, htop, hfollows⟩

end Stack.Spells

end Sangria
