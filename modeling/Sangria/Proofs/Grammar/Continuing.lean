import Sangria.Proofs.Grammar.Completeness
import Sangria.Proofs.Grammar.Deriving
import Sangria.Proofs.Grammar.Safety

/-!
# Whatever was read can be gone on with

Precedence takes entries out of the table, and a state that could only go on with one of them would
be a dead end. There is none: from every stack that a reader can come to, some tokens lead to a
whole program (`Stack.Spells.exists_program`).

They are found without looking at what a reader would do with them. Of the productions under way in
a state the first one is finished (`State.pending?`), each part that it lacks by the plainest
derivation that there is (`Nonterminal.plainest`), and this goes on until one derivation of a
program is left; that derivation is read (`readProgram_of_derivation`). A check of the table settles
that it can be done (`State.pending_spec`): the parts that are lacking are never connectives, so
nothing is lost by precedence, and a phrase with all its parts can be put together before some token
that is no connective.

It comes to an end because a phrase of two parts or more that were read makes the stack shorter, and
where only one was, `State.climb` goes down (`Stack.Spells.exists_lower`).
-/

namespace Sangria

/-! ### The plainest phrases -/

/-- A token that no literal fails on: an integer has not too many digits, and a real number is a
decimal. -/
structure Lexeme.Fits (t : Lexeme) : Prop where
  /-- A real number is a decimal. -/
  readable : t.Readable
  /-- An integer has not too many digits. -/
  short : t.kind = .literal .int → t.text.toList.length ≤ maxDigits

theorem Lexeme.Fits.not_isLong {t : Lexeme} (h : t.Fits) (digits : Nat) : ¬ t.IsLong digits := by
  rintro ⟨hkind, hlength, hlong⟩
  have := h.short hkind
  omega

/-- A production for each kind of phrase that leads to tokens soon. -/
def Nonterminal.plainest : Nonterminal → Production
  | .program => .program
  | .statements => .firstStatement
  | .statement => .simple
  | .simple => .simpleBare
  | .assignment => .assignment
  | .mark => .mark .plain
  | .bare => .bare
  | .compound => .compoundDefinition
  | .definition => .definition
  | .paramList => .noParams
  | .params => .firstParam
  | .branch => .branch
  | .otherwise => .noOtherwise
  | .block => .block
  | .expr => .atom
  | .atom => .nameAtom
  | .call => .call
  | .argList => .noArgs
  | .args => .firstArg
  | .literal => .literal .noneWord
  | .nothing => .nothing

/-- How many of these productions stand above each other. -/
def Nonterminal.height : Nonterminal → Nat
  | .nothing | .literal | .atom | .mark | .params => 0
  | .expr | .paramList | .argList | .otherwise => 1
  | .bare | .assignment | .args | .call => 2
  | .simple => 3
  | .statement => 4
  | .statements => 5
  | .block | .program => 6
  | .definition | .branch => 7
  | .compound => 8

/-- Whether a symbol is a token other than a number or a connective, or a phrase below a height. -/
def GrammarSymbol.isPlain (height : Nat) : GrammarSymbol → Bool
  | .token (.literal .int) | .token (.literal .float) | .token (.connective _) => false
  | .token _ => true
  | .phrase n => n.height < height

theorem plainest_spec : ∀ n : Nonterminal, n.plainest.lhs = n ∧ n.plainest.precedence? = none ∧
    n.plainest ≠ .literal .int ∧ n.plainest ≠ .literal .float ∧
    (n.plainest.rhs.all (·.isPlain n.height)) = true := by
  decide +kernel

/-- A token of a kind, with no text. -/
def Kind.bare (k : Kind) : Lexeme :=
  ⟨k, "", 0, 0⟩

/-- What every symbol but those tokens has: a derivation that no connective makes, of tokens that no
literal fails on. -/
structure Derivation.IsSample (text : List Char) (x : GrammarSymbol) (d : Derivation)
    (m : Meaning) : Prop where
  /-- It is one of the grammar and respects precedence. -/
  valid : d.Valid
  /-- It is of that symbol. -/
  symbol : d.symbol = x
  /-- No connective makes it. -/
  connective : d.connective? = none
  /-- It has a value. -/
  value : d.value text = .ok m
  /-- No literal in it fails. -/
  fits : ∀ t ∈ d.tokens, t.Fits

variable {text : List Char}

theorem isSample_token {k : Kind} {height : Nat}
    (h : GrammarSymbol.isPlain height (.token k) = true) :
    Derivation.IsSample text (.token k) (.token k.bare) (.token k.bare) := by
  refine ⟨Derivation.valid_token _, rfl, rfl, rfl, ?_⟩
  intro t ht
  obtain rfl := List.mem_singleton.1 ht
  exact ⟨fun hkind ↦ by simp [show k = _ from hkind, GrammarSymbol.isPlain] at h,
    fun _ ↦ Nat.zero_le _⟩

/-- Samples of the parts of a production are parts of a phrase. -/
theorem exists_parts_of_samples {xs : List GrammarSymbol}
    (h : ∀ x ∈ xs, ∃ d m, Derivation.IsSample text x d m) :
    ∃ ms ts, DerivesAll text xs ms ts ∧ List.Forall₂ GrammarSymbol.Admits ms xs ∧
      ∀ t ∈ ts, t.Fits := by
  induction xs with
  | nil => exact ⟨[], [], .nil, .nil, fun _ ht ↦ absurd ht List.not_mem_nil⟩
  | cons x rest ih =>
    obtain ⟨⟨d, m, hd⟩, hrest⟩ := List.forall_mem_cons.1 h
    obtain ⟨ms, ts, hms, hadmits, hts⟩ := ih hrest
    refine ⟨m :: ms, d.tokens ++ ts, .cons ⟨d, hd.valid, hd.symbol, rfl, hd.value⟩ hms,
      .cons ?_ hadmits, List.forall_mem_append.2 ⟨hd.fits, hts⟩⟩
    rw [← hd.symbol]
    exact Derivation.admits_of_value hd.valid hd.value

/-- There is a phrase of every kind. -/
theorem exists_isSample_phrase (n : Nonterminal) :
    ∃ d m, Derivation.IsSample text (.phrase n) d m := by
  induction hheight : n.height using Nat.strongRecOn generalizing n with
  | ind height ih =>
    subst hheight
    obtain ⟨hlhs, hprecedence, hint, hfloat, hrhs⟩ := plainest_spec n
    rw [List.all_eq_true] at hrhs
    have hparts : ∀ x ∈ n.plainest.rhs, ∃ d m, Derivation.IsSample text x d m := by
      intro x hx
      have hplain := hrhs x hx
      cases x with
      | token k => exact ⟨_, _, isSample_token hplain⟩
      | phrase n' => exact ih n'.height (of_decide_eq_true hplain) n' rfl
    obtain ⟨ms, ts, hms, hadmits, hts⟩ := exists_parts_of_samples hparts
    have hbuilds := build_of_fits text (Derivation.start ts) hadmits
    generalize hmade : build text (Derivation.start ts) n.plainest ms = made at hbuilds
    cases hbuilds with
    | tooLong hp => exact absurd hp hint
    | unreadable hp => exact absurd hp hfloat
    | @whole m _ =>
      obtain ⟨parts, hvalid, htokens, hvalue⟩ := exists_phrase hprecedence hms hmade
      refine ⟨.phrase n.plainest parts, m, hvalid, congrArg _ hlhs, ?_, hvalue, htokens ▸ hts⟩
      rw [Option.eq_none_iff_forall_not_mem]
      intro c hc
      rw [Derivation.connective?_phrase_eq_some_iff.1 hc] at hprecedence
      exact absurd hprecedence (by simp [Production.precedence?])

theorem exists_isSample {x : GrammarSymbol} {height : Nat} (h : x.isPlain height = true) :
    ∃ d m, Derivation.IsSample text x d m := by
  cases x with
  | token k => exact ⟨_, _, isSample_token h⟩
  | phrase n => exact exists_isSample_phrase n

/-! ### What is finished first -/

/-- The production that is finished first where what was read is gone on with, and how many of its
parts were read. -/
def State.pending? (s : State) : Option (Production × Nat) :=
  s.underWay.head?

/-- How many phrases of a single part, or of one that was read, are put together above each other
before a phrase has a second part that was read. -/
def State.climb : State → Nat
  | .literal _ => 10
  | .before .parenthesis | .name | .callAtom | .literalAtom => 9
  | .atom => 8
  | .before .negated | .before (.signed _) => 8
  | .after .firstArg | .bareExpr | .defWord | .before .condition | .leadingName => 7
  | .assignment | .bare | .definition | .branch => 5
  | .simple | .compound => 4
  | .firstStatement | .firstParam => 3
  | .statements | .params | .args => 2
  | .mark _ | .noParams | .noArgs | .noElse | .elseWord | .blockLine
  | .before .furtherCondition => 1
  | _ => 0

/-- The highest such number of a state behind a phrase. -/
def Nonterminal.climb : Nonterminal → Nat
  | .call | .literal => 9
  | .atom => 8
  | .expr => 7
  | .assignment | .bare | .definition | .branch => 5
  | .simple | .compound => 4
  | .statement => 3
  | .statements | .params | .args => 2
  | .nothing => 1
  | _ => 0

/-- Whether a part that is lacking may be put there, and what is pending then. -/
def State.takesPart (q : State) (p : Production) (n : Nat) (x : GrammarSymbol) : Bool :=
  x.isPlain 9 && (q.step x).any fun s ↦ s.pending? = some (p, n + 1)

/-- Tokens that are no connectives. -/
def enders : List Kind :=
  [.eof, .newline, .name, .closeParen]

/-- A part that is lacking may be put there; what has all its parts can be put together before some
token that is no connective; and where fewer than two were read, one was, and the climb goes down.
Nothing is pending only before all tokens and behind them. -/
theorem State.pending_spec : ∀ s : State,
    (s.pending?.all fun i ↦ (i.1.rhs[i.2]?).all fun x ↦ s.takesPart i.1 i.2 x) = true ∧
    (s.pending?.all fun i ↦ i.2 < i.1.rhs.length ||
      (i.2 = i.1.rhs.length && enders.any fun k ↦ action s k = some (.reduce i.1))) = true ∧
    (s.pending?.all fun i ↦ 1 < i.2 || (i.2 = 1 && i.1.lhs.climb < s.climb)) = true ∧
    (s.pending?.isSome = true ∨ s = .start ∨ s = .complete) ∧ s.climb ≤ 10 := by
  decide +kernel

theorem climb_le_of_goto : ∀ (q : State) (n : Nonterminal),
    ((goto q n).all fun s ↦ s.climb ≤ n.climb) = true := by
  decide +kernel

/-! ### Going on from a stack -/

theorem Nonterminal.not_admits_token (n : Nonterminal) (t : Lexeme) : ¬ n.Admits (.token t) := by
  cases n <;> simp [Nonterminal.Admits]

/-- The value of a program is a block. -/
theorem exists_block_of_program {d : Derivation} {m : Meaning} (hvalid : d.Valid)
    (hsymbol : d.symbol = .phrase .program) (hvalue : d.value text = .ok m) :
    ∃ b, m = .block b := by
  have hadmits := Derivation.admits_of_value hvalid hvalue
  rw [hsymbol] at hadmits
  obtain ⟨b, hb, -⟩ : Nonterminal.Admits m .program := hadmits
  exact ⟨b, hb⟩

/-- What remains to be done where a stack is gone on with: cells to be put together, and phrases of
a single part on top. -/
def Stack.remaining (stack : Stack) : Nat :=
  11 * stack.length + stack.state.climb

namespace Stack.Spells

variable {stack : Stack} {ds : List Derivation}

/-- A token on top of a stack was read. -/
theorem mem_of_top (h : stack.Spells text ds) {t : Lexeme}
    (htop : stack.head?.map (·.meaning) = some (.token t)) : t ∈ readTokens ds := by
  cases h with
  | nil => exact absurd htop (by simp)
  | @cons c below d ds top rest =>
    have hmeaning : c.meaning = .token t := Option.some.inj htop
    have hvalue := top.value
    rw [hmeaning] at hvalue
    rw [readTokens_cons]
    refine List.mem_append_right _ ?_
    cases d with
    | token u =>
      obtain rfl : u = t := Meaning.token.inj (Except.ok.inj hvalue)
      exact List.mem_singleton_self u
    | phrase p parts =>
      exact absurd (Derivation.admits_of_value top.valid hvalue) (p.lhs.not_admits_token t)

/-- A part that is lacking can be put on a stack. -/
theorem exists_push (h : stack.Spells text ds) {x : GrammarSymbol} {s : State} {height : Nat}
    (hx : x.isPlain height = true) (hs : stack.state.step x = some s) :
    ∃ c d, Stack.Spells text (c :: stack) (d :: ds) ∧ c.state = s ∧ ∀ t ∈ d.tokens, t.Fits := by
  obtain ⟨d, m, hd⟩ : ∃ d m, Derivation.IsSample text x d m := exists_isSample hx
  refine ⟨⟨s, m, Derivation.start d.tokens⟩, d, .cons ⟨⟨hd.valid, hd.value, ?_⟩, ?_, ?_, ?_⟩ h, rfl,
    hd.fits⟩
  · intro t ht
    rw [Derivation.start, show d.tokens.head? = some t from ht]
    rfl
  · rw [hd.symbol]
    exact hs
  · intro slot _ o _ c hc
    rw [hd.connective] at hc
    exact absurd hc (by simp)
  · -- behind a connective nothing is put
    rintro c rfl
    rw [(State.eq_of_step_right hs).1] at hx
    exact absurd hx (by simp [GrammarSymbol.isPlain])

/-- What is pending can be given all its parts. -/
theorem exists_filled {p : Production} {n : Nat} (h : stack.Spells text ds)
    (hp : stack.state.pending? = some (p, n)) (hn : n ≤ p.rhs.length) :
    ∃ stack' ds' us, Stack.Spells text stack' ds' ∧
      stack'.state.pending? = some (p, p.rhs.length) ∧ readTokens ds' = readTokens ds ++ us ∧
      (∀ u ∈ us, u.Fits) ∧ stack'.length + n = stack.length + p.rhs.length := by
  induction hlack : p.rhs.length - n generalizing n stack ds with
  | zero =>
    obtain rfl : n = p.rhs.length := by omega
    exact ⟨stack, ds, [], h, hp, (List.append_nil _).symm,
      fun _ hu ↦ absurd hu List.not_mem_nil, rfl⟩
  | succ lack ih =>
    have hlt : n < p.rhs.length := by omega
    obtain ⟨hplain, s, hs, hpending⟩ : (p.rhs[n]).isPlain 9 = true ∧
        ∃ s, stack.state.step p.rhs[n] = some s ∧ s.pending? = some (p, n + 1) := by
      have hcheck := stack.state.pending_spec.1
      rw [hp, Option.all_some, List.getElem?_eq_getElem hlt, Option.all_some, State.takesPart,
        Bool.and_eq_true] at hcheck
      simpa [Option.any_eq_true] using hcheck
    obtain ⟨c, d, hpushed, rfl, hfits⟩ := h.exists_push hplain hs
    obtain ⟨stack', ds', us, h', hp', htokens, hus, hlength⟩ :=
      ih hpushed hpending hlt (by omega)
    refine ⟨stack', ds', d.tokens ++ us, h', hp', ?_, List.forall_mem_append.2 ⟨hfits, hus⟩, ?_⟩
    · rw [htokens, readTokens_cons, List.append_assoc]
    · rw [List.length_cons] at hlength
      omega

/-- What is pending and has all its parts can be put together. -/
theorem exists_finished {p : Production} (h : stack.Spells text ds)
    (hfits : ∀ t ∈ readTokens ds, t.Fits)
    (hp : stack.state.pending? = some (p, p.rhs.length)) :
    ∃ stack' ds', Stack.Spells text stack' ds' ∧ readTokens ds' = readTokens ds ∧
      stack'.length + p.rhs.length = stack.length + 1 ∧
      ∃ q, goto q p.lhs = some stack'.state := by
  obtain ⟨k, hk, ha⟩ : ∃ k ∈ enders, action stack.state k = some (.reduce p) := by
    have hcheck := stack.state.pending_spec.2.1
    rw [hp, Option.all_some] at hcheck
    simpa using hcheck
  have hahead : ClosesAhead k ds := by
    rintro c rfl
    exact absurd hk (by simp [enders])
  rcases hr : stack.reduce text 0 p with f | stack'
  · obtain ⟨rfl, u, digits, -, hlong, htop⟩ :=
      h.fault_of_reduce (fun u hu ↦ (hfits u hu).readable) ha hr
    exact absurd hlong ((hfits u (h.mem_of_top htop)).not_isLong digits)
  · obtain ⟨ds', h', -, htokens⟩ := h.of_reduce hahead ha hr
    obtain ⟨hle, s, m, start, hgoto, rfl⟩ := Stack.exists_of_reduce_eq_ok hr
    refine ⟨_, ds', h', htokens, ?_, _, hgoto⟩
    rw [List.length_cons, List.length_drop]
    omega

/-- What is pending can be finished, and less remains to be done then. -/
theorem exists_lower {p : Production} {n : Nat} (h : stack.Spells text ds)
    (hfits : ∀ t ∈ readTokens ds, t.Fits) (hp : stack.state.pending? = some (p, n)) :
    ∃ stack' ds' us, Stack.Spells text stack' ds' ∧ readTokens ds' = readTokens ds ++ us ∧
      (∀ u ∈ us, u.Fits) ∧ stack'.remaining < stack.remaining := by
  obtain ⟨-, hcheck, hclimb, -⟩ := stack.state.pending_spec
  rw [hp, Option.all_some] at hcheck hclimb
  simp only [Bool.or_eq_true, Bool.and_eq_true, decide_eq_true_eq] at hcheck hclimb
  have hn : n ≤ p.rhs.length := by omega
  obtain ⟨stack₁, ds₁, us, h₁, hp₁, htokens₁, hus, hlength₁⟩ := h.exists_filled hp hn
  have hfits₁ : ∀ t ∈ readTokens ds₁, t.Fits := by
    rw [htokens₁]
    exact List.forall_mem_append.2 ⟨hfits, hus⟩
  obtain ⟨stack₂, ds₂, h₂, htokens₂, hlength₂, q, hgoto⟩ := h₁.exists_finished hfits₁ hp₁
  refine ⟨stack₂, ds₂, us, h₂, htokens₂.trans htokens₁, hus, ?_⟩
  -- a phrase of one part leaves the stack as long as it was, but takes the climb down
  have hbehind := climb_le_of_goto q p.lhs
  rw [hgoto, Option.all_some, decide_eq_true_eq] at hbehind
  have hmost := stack₂.state.pending_spec.2.2.2.2
  rw [Stack.remaining, Stack.remaining]
  omega

/-- Whatever a stack spells can be gone on with to a whole program. -/
theorem exists_program (h : stack.Spells text ds) (hfits : ∀ t ∈ readTokens ds, t.Fits) :
    ∃ us, ∃ d : Derivation, ∃ b, (∀ u ∈ us, u.Fits) ∧ d.Valid ∧
      d.symbol = .phrase .program ∧ d.tokens = readTokens ds ++ us ∧
      d.value text = .ok (.block b) := by
  induction hremaining : stack.remaining using Nat.strongRecOn generalizing stack ds with
  | ind remaining ih =>
    subst hremaining
    rcases stack.state.pending_spec.2.2.2.1 with hsome | hstart | hcomplete
    · obtain ⟨⟨p, n⟩, hp⟩ := Option.isSome_iff_exists.1 hsome
      obtain ⟨stack', ds', us, h', htokens', hus, hlower⟩ := h.exists_lower hfits hp
      have hfits' : ∀ t ∈ readTokens ds', t.Fits := by
        rw [htokens']
        exact List.forall_mem_append.2 ⟨hfits, hus⟩
      obtain ⟨us', d, b, hus', hvalid, hsymbol, htokens, hvalue⟩ := ih _ hlower h' hfits' rfl
      refine ⟨us ++ us', d, b, List.forall_mem_append.2 ⟨hus, hus'⟩, hvalid, hsymbol, ?_, hvalue⟩
      rw [htokens, htokens', List.append_assoc]
    · obtain ⟨-, rfl⟩ := h.eq_nil_of_state_eq_start hstart
      obtain ⟨d, m, hd⟩ : ∃ d m, Derivation.IsSample text (.phrase .program) d m :=
        exists_isSample_phrase .program
      obtain ⟨b, rfl⟩ := exists_block_of_program hd.valid hd.symbol hd.value
      exact ⟨d.tokens, d, b, hd.fits, hd.valid, hd.symbol, rfl, hd.value⟩
    · cases h with
      | nil => exact absurd hcomplete (by simp [Stack.state])
      | @cons c below d ds top rest =>
        have haccept : action c.state .eof = some .accept := by
          rw [show c.state = .complete from hcomplete]
          rfl
        obtain ⟨d, heq, hsymbol, hvalid, hvalue⟩ := (Spells.cons top rest).of_accept haccept
        obtain ⟨b, hb⟩ := exists_block_of_program hvalid hsymbol hvalue
        refine ⟨[], d, b, fun _ hu ↦ absurd hu List.not_mem_nil, hvalid, hsymbol, ?_, hb ▸ hvalue⟩
        rw [heq]
        simp [readTokens]

end Stack.Spells

end Sangria
