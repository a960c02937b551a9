import Sangria.Proofs.Printing.Expression

/-!
# What printed expressions derive

The words that are printed for an expression derive it, whatever their places
(`Expr.Printable.spells_print`). An operand without parentheses is one that precedence puts together
before its operator, so the derivation is valid; an operand in parentheses is an atom, of which
nothing is asked.
-/

namespace Sangria

theorem exists_append_of_writes {ts : List Lexeme} {ws ws' : List Word}
    (h : List.Forall₂ Lexeme.Writes ts (ws ++ ws')) :
    ∃ ts₁ ts₂, ts = ts₁ ++ ts₂ ∧ List.Forall₂ Lexeme.Writes ts₁ ws ∧
      List.Forall₂ Lexeme.Writes ts₂ ws' :=
  ⟨_, _, (List.take_append_drop ws.length ts).symm, List.forall₂_take_append _ _ _ h,
    List.forall₂_drop_append _ _ _ h⟩

theorem exists_cons_of_writes {ts : List Lexeme} {w : Word} {ws : List Word}
    (h : List.Forall₂ Lexeme.Writes ts (w :: ws)) :
    ∃ t ts', ts = t :: ts' ∧ t.Writes w ∧ List.Forall₂ Lexeme.Writes ts' ws := by
  obtain ⟨t, ts', ht, hts', rfl⟩ := List.forall₂_cons_right_iff.1 h
  exact ⟨t, ts', rfl, ht, hts'⟩

/-- Words derive a phrase of a kind with a meaning, at whatever places. -/
def SpellsPhrase (ws : List Word) (n : Nonterminal) (m : Meaning) : Prop :=
  ∀ (text : List Char) (ts : List Lexeme), List.Forall₂ Lexeme.Writes ts ws →
    Derives text (.phrase n) m ts

/-- What was printed derives an expression, with the operators open on the right and the connective
that were noted. -/
def Printed.Spells (q : Printed) (e : Expr) : Prop :=
  ∀ (text : List Char) (ts : List Lexeme), List.Forall₂ Lexeme.Writes ts q.words →
    ∃ d : Derivation, d.Valid ∧ d.symbol = .phrase .expr ∧ d.tokens = ts ∧
      d.value text = .ok (.expr e) ∧ d.rightSpine = q.spine ∧ d.connective? = q.connective?

namespace Printed.Spells

variable {q l r : Printed} {e a b : Expr}

theorem spellsPhrase (h : q.Spells e) : SpellsPhrase q.words .expr (.expr e) := by
  intro text ts hts
  obtain ⟨d, hvalid, hsymbol, htokens, hvalue, -, -⟩ := h text ts hts
  exact ⟨d, hvalid, hsymbol, htokens, hvalue⟩

theorem atom {ws : List Word} (h : SpellsPhrase ws .atom (.expr e)) :
    (Printed.atom ws).Spells e := by
  intro text ts hts
  have hatom := h text ts hts
  obtain ⟨parts, hvalid, htokens, hvalue⟩ := exists_phrase (p := .atom) rfl (.single hatom)
    (show build text _ .atom [.expr e] = .ok (.expr e) from rfl)
  exact ⟨_, hvalid, rfl, htokens, hvalue, rfl, rfl⟩

theorem inParens (h : q.Spells e) : q.inParens.Spells e := by
  refine atom fun text ts hts ↦ ?_
  obtain ⟨t, ts, rfl, hopen, hts⟩ := exists_cons_of_writes hts
  obtain ⟨ts, us, rfl, hinner, hus⟩ := exists_append_of_writes hts
  obtain ⟨u, us, rfl, hclose, hus⟩ := exists_cons_of_writes hus
  cases hus
  exact .phrase (p := .parenthesized) rfl (.token hopen.1 (.cons (h.spellsPhrase text ts hinner)
    (.token hclose.1 .nil))) rfl

theorem rightOperand (h : q.Spells e) (outer : Precedence) : (q.rightOperand outer).Spells e := by
  unfold Printed.rightOperand
  split
  · exact h
  · exact h.inParens

theorem leftOperand (h : q.Spells e) (c : Connective) : (q.leftOperand c).Spells e := by
  unfold Printed.leftOperand
  split
  · exact h
  · exact h.inParens

/-- A connective that is left without parentheses opens inside the operator. -/
theorem opensInside_rightOperand (outer : Precedence) :
    ∀ c ∈ (q.rightOperand outer).connective?, c.precedence.OpensInside outer := by
  unfold Printed.rightOperand
  split
  · assumption
  · exact fun c hc ↦ absurd hc (by simp [Printed.inParens, Printed.atom])

/-- An operator that is left open on the right closes before the connective. -/
theorem closesBefore_leftOperand (c : Connective) :
    ∀ p ∈ (q.leftOperand c).spine, p.ClosesBefore c.precedence := by
  unfold Printed.leftOperand
  split
  · assumption
  · exact fun p hp ↦ absurd hp List.not_mem_nil

theorem joined (c : Connective) (hl : l.Spells a) (hr : r.Spells b) :
    (Printed.joined c l r).Spells (.join c a b) := by
  intro text ts hts
  obtain ⟨ts, us, rfl, hleft, hus⟩ := exists_append_of_writes hts
  obtain ⟨u, us, rfl, hsign, hright⟩ := exists_cons_of_writes hus
  obtain ⟨dl, hdl, hsl, rfl, hvl, hspine, -⟩ := hl.leftOperand c text ts hleft
  obtain ⟨dr, hdr, hsr, rfl, hvr, hspine', hconnective⟩ :=
    hr.rightOperand c.precedence text us hright
  have hkind : u.kind = .connective c := by
    rw [hsign.1]
    cases c <;> rfl
  have hgrammar : [dl, .token u, dr].map Derivation.symbol = (Production.join c).rhs := by
    rw [List.map_cons, List.map_cons, List.map_cons, hsl, hsr, Derivation.symbol, hkind]
    rfl
  refine ⟨.phrase (.join c) [dl, .token u, dr], ?_, rfl, ?_, ?_, ?_, rfl⟩
  · rw [Derivation.valid_phrase_iff]
    refine ⟨⟨hgrammar, ?_, ?_⟩, ?_⟩
    · show ∀ p ∈ dl.rightSpine, p.ClosesBefore c.precedence
      rw [hspine]
      exact closesBefore_leftOperand c
    · intro outer houter operand hoperand
      obtain rfl : c.precedence = outer := Option.some.inj houter
      obtain rfl : dr = operand := Option.some.inj hoperand
      rw [hconnective]
      exact opensInside_rightOperand c.precedence
    · simp only [List.forall_mem_cons]
      exact ⟨hdl, Derivation.valid_token u, hdr, fun _ h ↦ absurd h List.not_mem_nil⟩
  · rw [Derivation.tokens_phrase]
    simp [Derivation.tokens]
  · rw [Derivation.value_phrase (.cons hvl (.cons rfl (.cons hvr .nil)))]
    rfl
  · rw [show [dl, .token u, dr] = [dl, .token u] ++ [dr] from rfl,
      Derivation.rightSpine_phrase_append rfl, hspine']
    rfl

/-- An operator before its only operand. -/
theorem behind {p : Production} {precedence : Precedence} {k : Kind} {w : Word}
    (hp : p.precedence? = some precedence) (hrhs : p.rhs = [.token k, .phrase .expr])
    (hlhs : p.lhs = .expr) (hw : w.kind = k) {whole : Expr}
    (hbuild : ∀ text start t, build text start p [.token t, .expr e] = .ok (.expr whole))
    (hne : ∀ parts, (Derivation.phrase p parts).connective? = none) (h : q.Spells e) :
    (Printed.behind w precedence q).Spells whole := by
  intro text ts hts
  obtain ⟨u, us, rfl, hsign, hus⟩ := exists_cons_of_writes hts
  obtain ⟨d, hd, hs, rfl, hv, hspine, hconnective⟩ := h.rightOperand precedence text us hus
  refine ⟨.phrase p [.token u, d], ?_, congrArg _ hlhs, ?_, ?_, ?_, hne _⟩
  · rw [Derivation.valid_phrase_iff]
    refine ⟨⟨?_, ?_, ?_⟩, ?_⟩
    · show [Derivation.symbol (.token u), d.symbol] = p.rhs
      rw [hrhs, hs, Derivation.symbol, hsign.1, hw]
    · cases p <;> first | trivial | exact absurd hrhs (by simp [Production.rhs])
    · intro outer houter operand hoperand
      obtain rfl : precedence = outer := Option.some.inj (hp.symm.trans houter)
      obtain rfl : d = operand := Option.some.inj hoperand
      rw [hconnective]
      exact opensInside_rightOperand precedence
    · simp only [List.forall_mem_cons]
      exact ⟨Derivation.valid_token u, hd, fun _ h ↦ absurd h List.not_mem_nil⟩
  · rw [Derivation.tokens_phrase]
    simp [Derivation.tokens]
  · rw [Derivation.value_phrase (.cons rfl (.cons hv .nil)), hbuild]
  · rw [show [.token u, d] = [Derivation.token u] ++ [d] from rfl,
      Derivation.rightSpine_phrase_append hp, hspine]
    rfl

end Printed.Spells

/-! ### Lists with commas -/

section Separated

variable {α : Type} {text : List Char} {n : Nonterminal} {wrap : List α → Meaning}
  {P : α → List Lexeme → Prop}

/-- Items behind commas go on with a list. -/
theorem derives_more
    (hnext : ∀ as a ts t us, Derives text (.phrase n) (wrap as) ts → t.kind = .comma → P a us →
      Derives text (.phrase n) (wrap (as ++ [a])) (ts ++ t :: us))
    {wss : List (List Word)} {as : List α}
    (hitems : List.Forall₂ (fun ws a ↦ ∀ ts, List.Forall₂ Lexeme.Writes ts ws → P a ts) wss as)
    {read : List α} {ts us : List Lexeme} (hread : Derives text (.phrase n) (wrap read) ts)
    (hus : List.Forall₂ Lexeme.Writes us (wss.flatMap (.comma :: ·))) :
    Derives text (.phrase n) (wrap (read ++ as)) (ts ++ us) := by
  induction hitems generalizing read ts us with
  | nil =>
    cases hus
    rwa [List.append_nil, List.append_nil]
  | @cons ws a wss as hitem _ ih =>
    rw [List.flatMap_cons] at hus
    obtain ⟨us, us', rfl, hus, hus'⟩ := exists_append_of_writes hus
    obtain ⟨t, us, rfl, ht, hus⟩ := exists_cons_of_writes hus
    have hmore := ih (hnext read a ts t us hread ht.1 (hitem us hus)) hus'
    rwa [List.append_assoc, List.append_assoc] at hmore

/-- Items with commas between them make a list. -/
theorem derives_separated (hfirst : ∀ a ts, P a ts → Derives text (.phrase n) (wrap [a]) ts)
    (hnext : ∀ as a ts t us, Derives text (.phrase n) (wrap as) ts → t.kind = .comma → P a us →
      Derives text (.phrase n) (wrap (as ++ [a])) (ts ++ t :: us))
    {wss : List (List Word)} {as : List α} (hne : as ≠ [])
    (hitems : List.Forall₂ (fun ws a ↦ ∀ ts, List.Forall₂ Lexeme.Writes ts ws → P a ts) wss as)
    {ts : List Lexeme} (hts : List.Forall₂ Lexeme.Writes ts (commaSeparated wss)) :
    Derives text (.phrase n) (wrap as) ts := by
  cases hitems with
  | nil => exact absurd rfl hne
  | @cons ws a wss as hitem hitems =>
    obtain ⟨ts, us, rfl, hts, hus⟩ := exists_append_of_writes hts
    exact derives_more hnext hitems (hfirst a ts (hitem ts hts)) hus

end Separated

/-- Arguments are spelled with commas between them. -/
theorem spellsPhrase_args {wss : List (List Word)} {es : List Expr}
    (h : List.Forall₂ (fun ws e ↦ SpellsPhrase ws .expr (.expr e)) wss es) :
    SpellsPhrase (commaSeparated wss) .argList (.args es) := by
  intro text ts hts
  rcases eq_or_ne es [] with rfl | hne
  · cases h
    cases hts
    exact .phrase (p := .noArgs) rfl (.single (.phrase (p := .nothing) rfl .nil rfl)) rfl
  · have hargs : Derives text (.phrase .args) (.args es) ts := by
      refine derives_separated (P := fun e ts ↦ Derives text (.phrase .expr) (.expr e) ts)
        (fun e ts he ↦ .phrase (p := .firstArg) rfl (.single he) rfl) ?_ hne
        (h.imp fun _ _ h ts hts ↦ h text ts hts) hts
      intro es e ts t us hes ht he
      exact .phrase (p := .nextArg) rfl (.cons hes (.token ht (.single he))) rfl
    exact .phrase (p := .someArgs) rfl (.single hargs) rfl

/-- Names are spelled with commas between them. -/
theorem spellsPhrase_params (xs : List String) :
    SpellsPhrase (commaSeparated (xs.map fun x ↦ [.ofName x])) .paramList (.params xs) := by
  intro text ts hts
  rcases eq_or_ne xs [] with rfl | hne
  · cases hts
    exact .phrase (p := .noParams) rfl (.single (.phrase (p := .nothing) rfl .nil rfl)) rfl
  · have hparams : Derives text (.phrase .params) (.params xs) ts := by
      refine derives_separated
        (P := fun x ts ↦ ∃ t : Lexeme, ts = [t] ∧ t.kind = .name ∧ t.text = x) ?_ ?_ hne ?_ hts
      · rintro x ts ⟨t, rfl, ht, rfl⟩
        exact .phrase (p := .firstParam) rfl (.token ht .nil) rfl
      · rintro xs x ts t us hxs ht ⟨u, rfl, hu, rfl⟩
        exact .phrase (p := .nextParam) rfl (.cons hxs (.token ht (.token hu .nil))) rfl
      · rw [List.forall₂_map_left_iff, List.forall₂_same]
        intro x _ ts hts
        obtain ⟨t, ts, rfl, ht, hts⟩ := exists_cons_of_writes hts
        cases hts
        exact ⟨t, rfl, ht.1, ht.2.trans String.ofList_toList⟩
    exact .phrase (p := .someParams) rfl (.single hparams) rfl

/-! ### Expressions -/

/-- The digits of a number are read as the number. -/
theorem valueInBase_toDigits (n : Nat) : valueInBase 10 (Nat.toDigits 10 n) = n := by
  have hdigits : ∀ c ∈ Nat.toDigits 10 n, isAsciiDigit c = true :=
    fun c hc ↦ isAsciiDigit_of_isDigit (Nat.isDigit_of_mem_toDigits (by decide) (by decide) hc)
  have hfold : ∀ (cs : List Char) (m : Nat), (∀ c ∈ cs, isAsciiDigit c = true) →
      appendDigits 10 m cs = Nat.ofDigitChars 10 cs m := by
    intro cs
    induction cs with
    | nil => exact fun _ _ ↦ rfl
    | cons c cs ih =>
      intro m hcs
      obtain ⟨hc, hcs⟩ := List.forall_mem_cons.1 hcs
      have hstep : appendDigits 10 m (c :: cs) = appendDigits 10 (10 * m + (c.toNat - 48)) cs := by
        rw [appendDigits, List.foldl_cons, digitValue?, if_pos hc, Nat.mul_comm]
        rfl
      rw [hstep, ih _ hcs]
      rfl
  rw [valueInBase_eq, hfold _ _ hdigits, Nat.ofDigitChars_ten_toDigits]

/-- The word of a literal is read as the literal. -/
theorem Literal.exists_literalValue (v : Literal) (h : v.Printable) :
    ∃ l, v.word.kind = .literal l ∧ literalValue l v.word.text = .ok v := by
  cases v with
  | none => exact ⟨.noneWord, rfl, rfl⟩
  | bool b => cases b with
    | true => exact ⟨.trueWord, rfl, rfl⟩
    | false => exact ⟨.falseWord, rfl, rfl⟩
  | int n =>
    refine ⟨.int, rfl, ?_⟩
    obtain ⟨n, rfl⟩ := Int.eq_ofNat_of_zero_le h.1
    have hlt : n < 10 ^ maxDigits := by
      rw [← Int.ofNat_lt, Int.natCast_pow]
      exact h.2
    have hlength : (Nat.toDigits 10 n).length ≤ maxDigits :=
      (Nat.length_toDigits_le_iff (by decide) (by decide)).2 hlt
    show (if maxDigits < (Nat.toDigits 10 n).length then _ else
      Except.ok (Literal.int (valueInBase 10 (Nat.toDigits 10 n)))) = _
    rw [if_neg (Nat.not_lt.2 hlength), valueInBase_toDigits]
  | real x => exact h.elim
  | text s =>
    refine ⟨.string, rfl, ?_⟩
    show Except.ok
      (Literal.text (String.ofList (unescape ((escape '"' s.toList ++ ['"']).dropLast)))) = _
    rw [List.dropLast_concat, unescape_escape (.inl rfl), String.ofList_toList]

/-- A literal's token derives its value. -/
theorem spellsPhrase_literal {w : Word} {l : LiteralKind} {v : Literal}
    (hkind : w.kind = .literal l) (hvalue : literalValue l w.text = .ok v) :
    SpellsPhrase [w] .atom (.expr (.literal v)) := by
  intro text ts hts
  obtain ⟨t, ts, rfl, ht, hts⟩ := exists_cons_of_writes hts
  cases hts
  have hbuild : build text (Derivation.start [t]) (.literal l) [.token t] =
      .ok (.expr (.literal v)) := by
    show (literalValue l t.text.toList).map _ = _
    rw [ht.2, String.toList_ofList, hvalue]
    rfl
  exact .phrase (p := .literalAtom) rfl
    (.single (.phrase (p := .literal l) rfl (.token (ht.1.trans hkind) .nil) hbuild)) rfl

theorem spells_literal {v : Literal} (h : v.Printable) :
    (Printed.atom [v.word]).Spells (.literal v) := by
  obtain ⟨l, hkind, hvalue⟩ := v.exists_literalValue h
  exact .atom (spellsPhrase_literal hkind hvalue)

theorem spells_name (x : String) : (Printed.atom [.ofName x]).Spells (.name x) := by
  refine .atom fun text ts hts ↦ ?_
  obtain ⟨t, ts, rfl, ht, hts⟩ := exists_cons_of_writes hts
  cases hts
  obtain rfl : t.text = x := ht.2.trans String.ofList_toList
  exact .phrase (p := .nameAtom) rfl (.token ht.1 .nil) rfl

/-- What is printed for an expression derives it. -/
theorem Expr.Printable.spells_print {e : Expr} (h : e.Printable) : e.print.Spells e := by
  induction h with
  | literal h => exact spells_literal h
  | @name x h => exact spells_name x
  | join c _ _ ihl ihr =>
    rw [Expr.print_join]
    exact ihl.joined c ihr
  | not _ ih =>
    exact ih.behind (p := .negation) rfl rfl rfl rfl (fun _ _ _ ↦ rfl) fun _ ↦ rfl
  | signed s _ ih =>
    exact ih.behind (p := .signed s) rfl rfl rfl rfl (fun _ _ _ ↦ rfl) fun _ ↦ rfl
  | @call f h args _ ih =>
    have hargs : SpellsPhrase (commaSeparated (print.printAll args)) .argList (.args args) := by
      refine spellsPhrase_args ?_
      rw [Expr.printAll_eq, List.forall₂_map_left_iff, List.forall₂_same]
      exact fun e he ↦ (ih e he).spellsPhrase
    refine .atom fun text ts hts ↦ ?_
    obtain ⟨t, us, rfl, ht, hus⟩ := exists_cons_of_writes hts
    obtain ⟨u, us, rfl, hu, hus⟩ := exists_cons_of_writes hus
    obtain ⟨inner, vs, rfl, hinner, hvs⟩ := exists_append_of_writes hus
    obtain ⟨v, vs, rfl, hv, hvs⟩ := exists_cons_of_writes hvs
    cases hvs
    obtain rfl : t.text = f := ht.2.trans String.ofList_toList
    exact .phrase (p := .callAtom) rfl (.single (.phrase (p := .call) rfl
      (.token ht.1 (.token hu.1 (.cons (hargs text inner hinner) (.token hv.1 .nil)))) rfl)) rfl

end Sangria
