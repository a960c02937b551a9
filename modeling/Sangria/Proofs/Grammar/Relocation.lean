import Sangria.Proofs.Grammar.Beginning
import Sangria.Proofs.Grammar.Deriving
import Sangria.Proofs.Grammar.Fitting
import Sangria.Proofs.Program.Relocation
import Sangria.Proofs.Token.Munching

/-!
# Tokens that stand elsewhere

What a phrase means depends on the kinds of its tokens and, for those that stand inside a line, on
their texts; where they stand decides only where the statements in it do. A token that is *alike*
another in these respects can take its place in a derivation (`Derivation.exists_alike`), so tokens
that are alike derive the same, relocated to where they stand (`Derives.relocated`).

What a line end says, and where the tokens of the layout are noted to stand, plays no part: where a
phrase stands is noted for statements only, and none begins with one of these (`isWord_of_placed`).
-/

namespace Sangria

variable {f : Position → Position} {text text' : List Char}

/-- Two tokens of two sources are read alike: they are of one kind, and if they stand inside a line,
they have one text, and the place of the first is moved to that of the second. -/
structure Lexeme.Alike (f : Position → Position) (text text' : List Char) (t t' : Lexeme) :
    Prop where
  /-- They are of one kind. -/
  kind : t'.kind = t.kind
  /-- They have one text. -/
  written : t.kind.isWord = true → t'.text = t.text
  /-- One stands where the other is moved to. -/
  place : t.kind.isWord = true →
    Position.ofOffset text' t'.offset = f (Position.ofOffset text t.offset)

/-- The text of a token that stands inside a line is the same. -/
theorem Lexeme.Alike.text_eq {t t' : Lexeme} (h : t.Alike f text text' t') {k : Kind}
    (hk : t.kind = k) (hword : k.isWord = true) : t'.text = t.text :=
  h.written (hk ▸ hword)

/-- A meaning is the same as another but for where statements stand. -/
def Meaning.Alike (f : Position → Position) (text text' : List Char) : Meaning → Meaning → Prop
  | .token t, m => ∃ t', m = .token t' ∧ t.Alike f text text' t'
  | .nothing, m => m = .nothing
  | .expr e, m => m = .expr e
  | .args es, m => m = .args es
  | .params xs, m => m = .params xs
  | .binding b, m => m = .binding b
  | .action s, m => m = .action (s.relocated f)
  | .statement s, m => m = .statement ⟨f s.position, s.item.relocated f⟩
  | .block b, m => m = .block (Block.relocated f b)
  | .otherwise o, m => m = .otherwise (o.map (Block.relocated f))

/-! ### Phrases from parts that are alike -/

/-- The productions that note where their phrase stands. -/
def Production.isPlaced : Production → Bool
  | .simple | .compound | .elif => true
  | _ => false

/-- Where a phrase stands is noted only if it begins with a token inside a line. -/
theorem isWord_of_placed : ∀ p : Production, p.isPlaced = true →
    p.rhs.all (·.nullable) = false ∧ ∀ k : Kind, beginsWith k p.rhs = true → k.isWord = true := by
  decide +kernel

/-- Parts that are alike build phrases that are alike, if these begin alike where that is noted. -/
theorem build_alike {p : Production} {ms ms' : List Meaning} {m : Meaning} {start start' : Nat}
    (hfits : List.Forall₂ GrammarSymbol.Admits ms p.rhs)
    (hms : List.Forall₂ (Meaning.Alike f text text') ms ms')
    (hstart : p.isPlaced = true →
      Position.ofOffset text' start' = f (Position.ofOffset text start))
    (hbuild : build text start p ms = .ok m) :
    ∃ m', build text' start' p ms' = .ok m' ∧ m.Alike f text text' m' := by
  cases p with
  | program | firstStatement | simpleAssignment | simpleBare | bare | compoundDefinition |
      compoundBranch | atom | literalAtom | callAtom | someArgs | firstArg =>
    obtain _ | ⟨⟨_, rfl, -⟩, _ | _⟩ := hfits
    obtain _ | ⟨rfl, _ | _⟩ := hms
    obtain rfl := Except.ok.inj hbuild
    exact ⟨_, rfl, rfl⟩
  | noParams | noOtherwise | noArgs =>
    obtain _ | ⟨rfl, _ | _⟩ := hfits
    obtain _ | ⟨rfl, _ | _⟩ := hms
    obtain rfl := Except.ok.inj hbuild
    exact ⟨_, rfl, rfl⟩
  | someParams =>
    obtain _ | ⟨⟨_, rfl⟩, _ | _⟩ := hfits
    obtain _ | ⟨rfl, _ | _⟩ := hms
    obtain rfl := Except.ok.inj hbuild
    exact ⟨_, rfl, rfl⟩
  | mark =>
    obtain _ | ⟨⟨_, rfl, -⟩, _ | _⟩ := hfits
    obtain _ | ⟨⟨_, rfl, -⟩, _ | _⟩ := hms
    obtain rfl := Except.ok.inj hbuild
    exact ⟨_, rfl, rfl⟩
  | negation | signed =>
    obtain _ | ⟨⟨_, rfl, -⟩, _ | ⟨⟨_, rfl, -⟩, _ | _⟩⟩ := hfits
    obtain _ | ⟨⟨_, rfl, -⟩, _ | ⟨rfl, _ | _⟩⟩ := hms
    obtain rfl := Except.ok.inj hbuild
    exact ⟨_, rfl, rfl⟩
  | join | nextArg =>
    obtain _ | ⟨⟨_, rfl, -⟩, _ | ⟨⟨_, rfl, -⟩, _ | ⟨⟨_, rfl, -⟩, _ | _⟩⟩⟩ := hfits
    obtain _ | ⟨rfl, _ | ⟨⟨_, rfl, -⟩, _ | ⟨rfl, _ | _⟩⟩⟩ := hms
    obtain rfl := Except.ok.inj hbuild
    exact ⟨_, rfl, rfl⟩
  | parenthesized =>
    obtain _ | ⟨⟨_, rfl, -⟩, _ | ⟨⟨_, rfl, -⟩, _ | ⟨⟨_, rfl, -⟩, _ | _⟩⟩⟩ := hfits
    obtain _ | ⟨⟨_, rfl, -⟩, _ | ⟨rfl, _ | ⟨⟨_, rfl, -⟩, _ | _⟩⟩⟩ := hms
    obtain rfl := Except.ok.inj hbuild
    exact ⟨_, rfl, rfl⟩
  | otherwise =>
    obtain _ | ⟨⟨_, rfl, -⟩, _ | ⟨⟨_, rfl, -⟩, _ | ⟨⟨_, rfl, -⟩, _ | _⟩⟩⟩ := hfits
    obtain _ | ⟨⟨_, rfl, -⟩, _ | ⟨⟨_, rfl, -⟩, _ | ⟨rfl, _ | _⟩⟩⟩ := hms
    obtain rfl := Except.ok.inj hbuild
    exact ⟨_, rfl, rfl⟩
  | block =>
    obtain _ | ⟨⟨_, rfl, -⟩, _ | ⟨⟨_, rfl, -⟩, _ | ⟨⟨_, rfl, -⟩, _ | ⟨⟨_, rfl, -⟩, _ |
      _⟩⟩⟩⟩ := hfits
    obtain _ | ⟨⟨_, rfl, -⟩, _ | ⟨⟨_, rfl, -⟩, _ | ⟨rfl, _ | ⟨⟨_, rfl, -⟩, _ | _⟩⟩⟩⟩ := hms
    obtain rfl := Except.ok.inj hbuild
    exact ⟨_, rfl, rfl⟩
  | nextStatement =>
    obtain _ | ⟨⟨_, rfl, -⟩, _ | ⟨⟨_, rfl, -⟩, _ | _⟩⟩ := hfits
    obtain _ | ⟨rfl, _ | ⟨rfl, _ | _⟩⟩ := hms
    obtain rfl := Except.ok.inj hbuild
    refine ⟨_, rfl, ?_⟩
    rw [Meaning.Alike, Block.relocated_append]
    rfl
  | simple =>
    obtain _ | ⟨⟨_, rfl, -⟩, _ | ⟨⟨_, rfl, -⟩, _ | _⟩⟩ := hfits
    obtain _ | ⟨rfl, _ | ⟨⟨_, rfl, -⟩, _ | _⟩⟩ := hms
    obtain rfl := Except.ok.inj hbuild
    exact ⟨_, rfl, by rw [Meaning.Alike, hstart rfl]⟩
  | compound =>
    obtain _ | ⟨⟨_, rfl, -⟩, _ | _⟩ := hfits
    obtain _ | ⟨rfl, _ | _⟩ := hms
    obtain rfl := Except.ok.inj hbuild
    exact ⟨_, rfl, by rw [Meaning.Alike, hstart rfl]⟩
  | branch =>
    obtain _ | ⟨⟨_, rfl, -⟩, _ | ⟨⟨_, rfl, -⟩, _ | ⟨⟨_, rfl, -⟩, _ | ⟨⟨_, rfl, -⟩, _ |
      ⟨⟨_, rfl, -⟩, _ | _⟩⟩⟩⟩⟩ := hfits
    obtain _ | ⟨⟨_, rfl, -⟩, _ | ⟨rfl, _ | ⟨⟨_, rfl, -⟩, _ | ⟨rfl, _ | ⟨rfl, _ | _⟩⟩⟩⟩⟩ := hms
    obtain rfl := Except.ok.inj hbuild
    exact ⟨_, rfl, by rw [Meaning.Alike, Stmt.relocated_branch]⟩
  | elif =>
    obtain _ | ⟨⟨_, rfl, -⟩, _ | ⟨⟨_, rfl, -⟩, _ | ⟨⟨_, rfl, -⟩, _ | ⟨⟨_, rfl, -⟩, _ |
      ⟨⟨_, rfl, -⟩, _ | _⟩⟩⟩⟩⟩ := hfits
    obtain _ | ⟨⟨_, rfl, -⟩, _ | ⟨rfl, _ | ⟨⟨_, rfl, -⟩, _ | ⟨rfl, _ | ⟨rfl, _ | _⟩⟩⟩⟩⟩ := hms
    obtain rfl := Except.ok.inj hbuild
    refine ⟨_, rfl, ?_⟩
    rw [Meaning.Alike, Option.map_some, Block.relocated, Stmt.relocated_branch, hstart rfl]
    rfl
  | assignment =>
    obtain _ | ⟨⟨x, rfl, hx⟩, _ | ⟨⟨b, rfl⟩, _ | ⟨⟨_, rfl, -⟩, _ | _⟩⟩⟩ := hfits
    obtain _ | ⟨⟨x', rfl, h⟩, _ | ⟨rfl, _ | ⟨rfl, _ | _⟩⟩⟩ := hms
    obtain rfl := Except.ok.inj hbuild
    exact ⟨_, rfl, by rw [Meaning.Alike, h.text_eq hx rfl]; rfl⟩
  | definition =>
    obtain _ | ⟨⟨_, rfl, -⟩, _ | ⟨⟨g, rfl, hg⟩, _ | ⟨⟨_, rfl, -⟩, _ | ⟨⟨_, rfl⟩, _ |
      ⟨⟨_, rfl, -⟩, _ | ⟨⟨_, rfl, -⟩, _ | ⟨⟨_, rfl, -⟩, _ | _⟩⟩⟩⟩⟩⟩⟩ := hfits
    obtain _ | ⟨⟨_, rfl, -⟩, _ | ⟨⟨g', rfl, h⟩, _ | ⟨⟨_, rfl, -⟩, _ | ⟨rfl, _ | ⟨⟨_, rfl, -⟩, _ |
      ⟨⟨_, rfl, -⟩, _ | ⟨rfl, _ | _⟩⟩⟩⟩⟩⟩⟩ := hms
    obtain rfl := Except.ok.inj hbuild
    exact ⟨_, rfl, by rw [Meaning.Alike, h.text_eq hg rfl]; rfl⟩
  | firstParam | nameAtom =>
    obtain _ | ⟨⟨x, rfl, hx⟩, _ | _⟩ := hfits
    obtain _ | ⟨⟨x', rfl, h⟩, _ | _⟩ := hms
    obtain rfl := Except.ok.inj hbuild
    exact ⟨_, rfl, by rw [Meaning.Alike, h.text_eq hx rfl]⟩
  | nextParam =>
    obtain _ | ⟨⟨_, rfl⟩, _ | ⟨⟨_, rfl, -⟩, _ | ⟨⟨x, rfl, hx⟩, _ | _⟩⟩⟩ := hfits
    obtain _ | ⟨rfl, _ | ⟨⟨_, rfl, -⟩, _ | ⟨⟨x', rfl, h⟩, _ | _⟩⟩⟩ := hms
    obtain rfl := Except.ok.inj hbuild
    exact ⟨_, rfl, by rw [Meaning.Alike, h.text_eq hx rfl]⟩
  | call =>
    obtain _ | ⟨⟨g, rfl, hg⟩, _ | ⟨⟨_, rfl, -⟩, _ | ⟨⟨_, rfl, -⟩, _ | ⟨⟨_, rfl, -⟩, _ |
      _⟩⟩⟩⟩ := hfits
    obtain _ | ⟨⟨g', rfl, h⟩, _ | ⟨⟨_, rfl, -⟩, _ | ⟨rfl, _ | ⟨⟨_, rfl, -⟩, _ | _⟩⟩⟩⟩ := hms
    obtain rfl := Except.ok.inj hbuild
    exact ⟨_, rfl, by rw [Meaning.Alike, h.text_eq hg rfl]⟩
  | literal l =>
    obtain _ | ⟨⟨t, rfl, ht⟩, _ | _⟩ := hfits
    obtain _ | ⟨⟨t', rfl, h⟩, _ | _⟩ := hms
    change (literalValue l t.text.toList).map (fun v ↦ .expr (.literal v)) = .ok m at hbuild
    rcases hvalue : literalValue l t.text.toList with e | v
    · rw [hvalue] at hbuild
      exact absurd hbuild (by simp [Except.map])
    · rw [hvalue] at hbuild
      obtain rfl := Except.ok.inj hbuild
      refine ⟨.expr (.literal v), ?_, rfl⟩
      change (literalValue l t'.text.toList).map (fun v ↦ Meaning.expr (.literal v)) = _
      rw [h.text_eq ht rfl, hvalue]
      rfl
  | nothing =>
    obtain _ | _ := hfits
    obtain _ | _ := hms
    obtain rfl := Except.ok.inj hbuild
    exact ⟨_, rfl, rfl⟩

/-! ### Derivations that are alike -/

/-- A derivation can take the place of another: it derives the same symbol, leaves the same open,
and means the same but for where statements stand. -/
structure Derivation.Alike (f : Position → Position) (text text' : List Char)
    (d d' : Derivation) : Prop where
  /-- It derives the same symbol. -/
  symbol : d'.symbol = d.symbol
  /-- It is made by the same connective. -/
  connective : d'.connective? = d.connective?
  /-- It leaves the same operators open. -/
  spine : d'.rightSpine = d.rightSpine
  /-- It is one of the grammar, and respects precedence. -/
  valid : d'.Valid
  /-- It means the same. -/
  value : ∀ {m : Meaning}, d.value text = .ok m →
    ∃ m', d'.value text' = .ok m' ∧ m.Alike f text text' m'

namespace Derivation

variable {p : Production} {parts parts' : List Derivation} {ts ts' : List Lexeme}

theorem valid_of_alike (h : List.Forall₂ (Derivation.Alike f text text') parts parts') :
    ∀ d ∈ parts', d.Valid := by
  induction h with
  | nil => exact List.forall_mem_nil _
  | cons hd _ ih => exact List.forall_mem_cons.2 ⟨hd.valid, ih⟩

theorem map_symbol_of_alike (h : List.Forall₂ (Derivation.Alike f text text') parts parts') :
    parts'.map symbol = parts.map symbol := by
  induction h with
  | nil => rfl
  | cons hd _ ih => rw [List.map_cons, List.map_cons, hd.symbol, ih]

theorem lastSpine_of_alike (h : List.Forall₂ (Derivation.Alike f text text') parts parts') :
    rightSpine.lastSpine parts' = rightSpine.lastSpine parts := by
  induction h with
  | nil => rfl
  | cons hd hrest ih =>
    cases hrest with
    | nil => exact hd.spine
    | cons _ _ => exact ih

/-- The last of derivations that are alike are alike. -/
theorem exists_last_of_alike (h : List.Forall₂ (Derivation.Alike f text text') parts parts')
    {last' : Derivation} (hlast : last' ∈ parts'.getLast?) :
    ∃ last ∈ parts.getLast?, last.Alike f text text' last' := by
  rw [List.getLast?_eq_head?_reverse] at hlast ⊢
  have hreverse := List.forall₂_reverse_iff.2 h
  generalize parts.reverse = rs at hreverse
  generalize parts'.reverse = rs' at hreverse hlast
  cases hreverse with
  | nil => exact absurd hlast (by simp)
  | @cons d _ _ _ hd _ =>
    obtain rfl := Option.some.inj hlast
    exact ⟨d, rfl, hd⟩

theorem exists_values_of_alike (h : List.Forall₂ (Derivation.Alike f text text') parts parts')
    {ms : List Meaning} (hms : List.Forall₂ (fun d m ↦ d.value text = .ok m) parts ms) :
    ∃ ms', List.Forall₂ (fun d m ↦ d.value text' = .ok m) parts' ms' ∧
      List.Forall₂ (Meaning.Alike f text text') ms ms' := by
  induction h generalizing ms with
  | nil =>
    cases hms
    exact ⟨[], .nil, .nil⟩
  | cons hd _ ih =>
    cases hms with
    | cons hm hrest =>
      obtain ⟨m', hvalue, halike⟩ := hd.value hm
      obtain ⟨ms', hvalues, halikes⟩ := ih hrest
      exact ⟨m' :: ms', .cons hvalue hvalues, .cons halike halikes⟩

/-- A phrase of parts that are alike is as sound. -/
theorem sound_of_alike (h : List.Forall₂ (Derivation.Alike f text text') parts parts')
    (hsound : (phrase p parts).Sound) : (phrase p parts').Sound := by
  refine ⟨(map_symbol_of_alike h).trans hsound.grammar, ?_, ?_⟩
  · cases p with
    | join c =>
      cases h with
      | nil => trivial
      | cons hd _ =>
        intro p hp
        rw [hd.spine] at hp
        exact hsound.left p hp
    | _ => trivial
  · intro outer houter operand' hoperand' c hc
    obtain ⟨operand, hoperand, halike⟩ := exists_last_of_alike h hoperand'
    rw [halike.connective] at hc
    exact hsound.right outer houter operand hoperand c hc

/-- Where it is noted, phrases of tokens that are alike stand alike. -/
theorem start_of_alike (hsound : (phrase p parts).Sound) (hparts : ∀ d ∈ parts, d.Valid)
    (hplaced : p.isPlaced = true)
    (hts : List.Forall₂ (Lexeme.Alike f text text') (parts.flatMap tokens) ts') :
    Position.ofOffset text' (start ts') =
      f (Position.ofOffset text (start (parts.flatMap tokens))) := by
  obtain ⟨hnullable, hbegins⟩ := isWord_of_placed p hplaced
  have hgrammar : parts.map symbol = p.rhs := hsound.grammar
  generalize hall : parts.flatMap tokens = ts at hts
  cases hts with
  | nil =>
    -- such a phrase has a token
    have hnil := all_nullable_of_flatMap_eq_nil hparts hall
    rw [hgrammar, hnullable] at hnil
    exact absurd hnil Bool.false_ne_true
  | @cons t t' _ _ ht _ =>
    have hhead : t ∈ (parts.flatMap tokens).head? := by rw [hall]; rfl
    have hbegin := beginsWith_of_head? hparts (fun d hd ↦ begins_of_head? (hparts d hd)) hhead
    rw [hgrammar] at hbegin
    exact ht.place (hbegins _ hbegin)

/-- Parts can be taken the place of one after the other. -/
theorem exists_parts_of_alike
    (ih : ∀ d ∈ parts, ∀ ts', List.Forall₂ (Lexeme.Alike f text text') d.tokens ts' →
      ∃ d', d'.tokens = ts' ∧ d.Alike f text text' d')
    (hts : List.Forall₂ (Lexeme.Alike f text text') (parts.flatMap tokens) ts') :
    ∃ parts', parts'.flatMap tokens = ts' ∧
      List.Forall₂ (Derivation.Alike f text text') parts parts' := by
  induction parts generalizing ts' with
  | nil =>
    cases hts
    exact ⟨[], rfl, .nil⟩
  | cons d rest ihr =>
    rw [List.flatMap_cons] at hts
    have hfirst := (List.forall₂_take_append _ _ _ hts.flip).flip
    have hothers := (List.forall₂_drop_append _ _ _ hts.flip).flip
    obtain ⟨d', hd', hd⟩ := ih d List.mem_cons_self _ hfirst
    obtain ⟨parts', hparts', hparts⟩ := ihr (fun e he ↦ ih e (List.mem_cons_of_mem _ he)) hothers
    refine ⟨d' :: parts', ?_, .cons hd hparts⟩
    rw [List.flatMap_cons, hd', hparts', List.take_append_drop]

/-- Tokens that are alike have a derivation that can take the place of the first. -/
theorem exists_alike {d : Derivation} (hd : d.Valid) {ts' : List Lexeme}
    (hts : List.Forall₂ (Lexeme.Alike f text text') d.tokens ts') :
    ∃ d', d'.tokens = ts' ∧ d.Alike f text text' d' := by
  induction d generalizing ts' with
  | token t =>
    obtain _ | ⟨ht, _ | _⟩ := hts
    refine ⟨token _, rfl, congrArg GrammarSymbol.token ht.kind, rfl, rfl, valid_token _, ?_⟩
    intro m hm
    obtain rfl := Except.ok.inj hm
    exact ⟨_, rfl, _, rfl, ht⟩
  | phrase p parts ih =>
    obtain ⟨hsound, hparts⟩ := valid_phrase_iff.1 hd
    rw [tokens_phrase] at hts
    obtain ⟨parts', rfl, halike⟩ :=
      exists_parts_of_alike (fun e he ts' ↦ ih e he (hparts e he)) hts
    have hvalid := valid_phrase_iff.2 ⟨sound_of_alike halike hsound, valid_of_alike halike⟩
    refine ⟨phrase p parts', tokens_phrase p parts', rfl, ?_, ?_, hvalid, ?_⟩
    · cases p <;> rfl
    · rw [rightSpine, rightSpine, lastSpine_of_alike halike]
    · intro m hm
      obtain ⟨ms, hms, hbuild⟩ := value_phrase_eq_ok_iff.1 hm
      obtain ⟨ms', hms', hmeans⟩ := exists_values_of_alike halike hms
      have hfits := forall₂_admits hsound.grammar hms fun e he m ↦ admits_of_value (hparts e he)
      rw [value_phrase hms']
      exact build_alike hfits hmeans (fun hplaced ↦ start_of_alike hsound hparts hplaced hts) hbuild

end Derivation

/-- What tokens derive is derived, relocated, by tokens that are alike. -/
theorem Derives.relocated {x : GrammarSymbol} {m : Meaning} {ts ts' : List Lexeme}
    (h : Derives text x m ts) (hts : List.Forall₂ (Lexeme.Alike f text text') ts ts') :
    ∃ m', Derives text' x m' ts' ∧ m.Alike f text text' m' := by
  obtain ⟨d, hvalid, rfl, rfl, hvalue⟩ := h
  obtain ⟨d', htokens, halike⟩ := Derivation.exists_alike hvalid hts
  obtain ⟨m', hvalue', hmeans⟩ := halike.value hvalue
  exact ⟨m', ⟨d', halike.valid, halike.symbol, htokens, hvalue'⟩, hmeans⟩

end Sangria
