import Sangria.Proofs.Grammar.Completeness
import Sangria.Proofs.Parse.Soundness
import Sangria.Proofs.Token.Joining

/-!
# Parsing sources that are joined

Two sources that are parsed, with a newline between them, are parsed as the program of the first and
then that of the second, further down (`parse_append`). So parsing takes the joining of sources to
the appending of programs.

The tokens of the joined source are those of the two, in place of each other (`Delivers.join`): what
a program is made of closes its parentheses (`Derivation.openParens_eq`), and begins with a word.
They derive the two programs, and statements can be appended to statements
(`Derives.statements_append`). Completeness of the parser does the rest.
-/

namespace Sangria

/-! ### Parentheses -/

/-- How many parentheses are open behind symbols of the grammar; a phrase closes what it opens. -/
def openAfterSymbols (depth : Nat) : List GrammarSymbol → Nat
  | [] => depth
  | .token k :: rest => openAfterSymbols (Layout.depthAfter depth k) rest
  | .phrase _ :: rest => openAfterSymbols depth rest

/-- A production closes the parentheses that it opens. -/
theorem openAfterSymbols_rhs (p : Production) (depth : Nat) :
    openAfterSymbols depth p.rhs = depth := by
  cases p with
  | signed sign => cases sign <;> rfl
  | join c =>
    cases c with
    | apply op => cases op <;> rfl
    | _ => rfl
  | _ => rfl

namespace Derivation

/-- A phrase closes the parentheses that it opens. -/
theorem openParens_eq {d : Derivation} (hd : d.Valid) {n : Nonterminal}
    (hn : d.symbol = .phrase n) (depth : Nat) :
    openParens depth (d.tokens.map (·.kind)) = depth := by
  induction d generalizing n depth with
  | token t => exact absurd hn (by simp [symbol])
  | phrase p parts ih =>
    obtain ⟨hsound, hparts⟩ := valid_phrase_iff.1 hd
    have hall (ds : List Derivation) (hds : ∀ d ∈ ds, d ∈ parts) (depth : Nat) :
        openParens depth ((ds.flatMap tokens).map (·.kind)) =
          openAfterSymbols depth (ds.map symbol) := by
      induction ds generalizing depth with
      | nil => rfl
      | cons d rest ihr =>
        rw [List.forall_mem_cons] at hds
        rw [List.flatMap_cons, List.map_append, openParens_append, ihr hds.2, List.map_cons]
        cases hsymbol : d.symbol with
        | token k =>
          obtain ⟨t, rfl, rfl⟩ := exists_token hsymbol
          rfl
        | phrase n => rw [ih d hds.1 (hparts d hds.1) hsymbol, openAfterSymbols]
    rw [tokens_phrase, hall parts (fun _ h ↦ h), show parts.map symbol = p.rhs from hsound.grammar,
      openAfterSymbols_rhs]

end Derivation

/-! ### Statements behind statements -/

section Statements

variable {text : List Char} {b b' : Block} {ts ts' : List Lexeme}

theorem Production.eq_of_lhs_program {p : Production} (h : p.lhs = .program) : p = .program := by
  cases p with
  | program => rfl
  | _ => nomatch h

theorem Production.eq_of_lhs_statements {p : Production} (h : p.lhs = .statements) :
    p = .nextStatement ∨ p = .firstStatement := by
  cases p with
  | nextStatement => exact .inl rfl
  | firstStatement => exact .inr rfl
  | _ => nomatch h

/-- A phrase with a meaning has parts with meanings that its production asks for. -/
theorem Derivation.exists_meanings {p : Production} {parts : List Derivation} {m : Meaning}
    (hd : (phrase p parts).Valid) (hvalue : (phrase p parts).value text = .ok m) :
    ∃ ms, List.Forall₂ (fun d m ↦ d.Valid ∧ d.value text = .ok m) parts ms ∧
      parts.map symbol = p.rhs ∧ List.Forall₂ GrammarSymbol.Admits ms p.rhs ∧
      build text (start (parts.flatMap tokens)) p ms = .ok m := by
  obtain ⟨hsound, hparts⟩ := valid_phrase_iff.1 hd
  obtain ⟨ms, hms, hbuild⟩ := value_phrase_eq_ok_iff.1 hvalue
  refine ⟨ms, ?_, hsound.grammar,
    forall₂_admits hsound.grammar hms fun d hmem m ↦ admits_of_value (hparts d hmem), hbuild⟩
  clear hd hvalue hsound hbuild
  induction hms with
  | nil => exact .nil
  | @cons d m ds ms hm _ ih =>
    rw [List.forall_mem_cons] at hparts
    exact .cons ⟨hparts.1, hm⟩ (ih hparts.2)

/-- A program is made of statements. -/
theorem Derivation.derives_statements {d : Derivation} (hd : d.Valid)
    (hsymbol : d.symbol = .phrase .program) (hvalue : d.value text = .ok (.block b)) :
    Derives text (.phrase .statements) (.block b) d.tokens := by
  cases d with
  | token t => exact absurd hsymbol (by simp [symbol])
  | phrase p parts =>
    obtain rfl := Production.eq_of_lhs_program (GrammarSymbol.phrase.inj hsymbol)
    obtain ⟨ms, hms, hgrammar, hadmits, hbuild⟩ := exists_meanings hd hvalue
    obtain _ | ⟨⟨b₀, rfl, -⟩, _ | _⟩ := hadmits
    obtain _ | ⟨⟨hvalid, hblock⟩, _ | _⟩ := hms
    obtain rfl := Meaning.block.inj (Except.ok.inj hbuild)
    exact ⟨_, hvalid, (List.cons.inj hgrammar).1, by simp, hblock⟩

/-- Statements behind statements are statements. -/
theorem Derives.statements_append (h : Derives text (.phrase .statements) (.block b) ts)
    (h' : Derives text (.phrase .statements) (.block b') ts') :
    Derives text (.phrase .statements) (.block (b ++ b')) (ts ++ ts') := by
  obtain ⟨d, hd, hsymbol, rfl, hvalue⟩ := h'
  induction d generalizing b' with
  | token t => exact absurd hsymbol (by simp [Derivation.symbol])
  | phrase p parts ih =>
    obtain ⟨ms, hms, hgrammar, hadmits, hbuild⟩ := Derivation.exists_meanings hd hvalue
    rcases Production.eq_of_lhs_statements (GrammarSymbol.phrase.inj hsymbol) with rfl | rfl
    · obtain _ | ⟨⟨b₀, rfl, -⟩, _ | ⟨⟨s, rfl, -⟩, _ | _⟩⟩ := hadmits
      obtain _ | @⟨before, _, _, _, ⟨hbefore, hblock⟩, _ | @⟨last, _, _, _, ⟨hlast, hstatement⟩,
        _ | _⟩⟩ := hms
      obtain rfl := Meaning.block.inj (Except.ok.inj hbuild)
      obtain ⟨hsymbol, hgrammar⟩ := List.cons.inj hgrammar
      have hall := ih before List.mem_cons_self hbefore hsymbol hblock
      have hone : Derives text (.phrase .statement) (.statement s) last.tokens :=
        ⟨last, hlast, (List.cons.inj hgrammar).1, rfl, hstatement⟩
      have hmore : Derives text (.phrase .statements) _ _ :=
        .phrase (p := .nextStatement) rfl (.cons hall (.single hone)) rfl
      simpa using hmore
    · obtain _ | ⟨⟨s, rfl, -⟩, _ | _⟩ := hadmits
      obtain _ | @⟨last, _, _, _, ⟨hlast, hstatement⟩, _ | _⟩ := hms
      obtain rfl := Meaning.block.inj (Except.ok.inj hbuild)
      have hone : Derives text (.phrase .statement) (.statement s) last.tokens :=
        ⟨last, hlast, (List.cons.inj hgrammar).1, rfl, hstatement⟩
      have hmore : Derives text (.phrase .statements) _ _ :=
        .phrase (p := .nextStatement) rfl (.cons h (.single hone)) rfl
      simpa using hmore

end Statements

/-! ### Joined sources -/

/-- What is parsed has tokens that derive it: statements that begin with a word. -/
theorem exists_statements_of_parse {source : String} {program : Block}
    (h : parse source = .ok program) :
    ∃ ts, Delivers source.toList (.ofText source.toList) .initial ts ∧
      Derives source.toList (.phrase .statements) (.block program) ts ∧
      openParens 0 (ts.map (·.kind)) = 0 ∧ ∃ t ∈ ts.head?, t.kind ≠ .indent := by
  rw [parse_eq_readProgram] at h
  obtain ⟨ts, d, hts, htokens, hsymbol, hvalid, hvalue⟩ :=
    exists_derivation_of_readProgram .nil (fun t _ ↦ closesAhead_nil t.kind) h
  obtain rfl : d.tokens = ts := by simpa [readTokens] using htokens
  refine ⟨d.tokens, deliveries_eq_iff.1 hts, d.derives_statements hvalid hsymbol hvalue,
    d.openParens_eq hvalid hsymbol 0, ?_⟩
  cases htokens : d.tokens with
  | nil =>
    -- a program has a token
    have hnil := Derivation.nullable_of_tokens_eq_nil hvalid htokens
    rw [hsymbol] at hnil
    exact absurd hnil (by decide)
  | cons t ts =>
    have hbegins := Derivation.begins_of_head? hvalid t (by rw [htokens]; rfl)
    rw [hsymbol] at hbegins
    refine ⟨t, rfl, fun hindent ↦ ?_⟩
    rw [hindent] at hbegins
    exact absurd hbegins (by decide)

/-- Tokens that derive statements are parsed as them. -/
theorem parse_of_delivers {source : String} {program : Block} {ts : List Lexeme}
    (hts : Delivers source.toList (.ofText source.toList) .initial ts)
    (h : Derives source.toList (.phrase .statements) (.block program) ts) :
    parse source = .ok program := by
  have hprogram : Derives source.toList (.phrase .program) (.block program) ts :=
    .phrase (p := .program) rfl (.single h) rfl
  obtain ⟨d, hvalid, hsymbol, rfl, hvalue⟩ := hprogram
  rw [parse_eq_readProgram, deliveries_of_delivers hts]
  exact readProgram_of_derivation hvalid hsymbol hvalue

/-- Two sources that are parsed, with a newline between them, are parsed as the program of the first
followed by that of the second, with all its positions as many lines further down as the first
source has, columns unchanged. -/
theorem parse_append {source source' : String} {program program' : Block}
    (h : parse source = .ok program) (h' : parse source' = .ok program') :
    parse (source ++ "\n" ++ source') =
      .ok (program ++ Block.relocated (.down (1 + source.toList.count '\n')) program') := by
  obtain ⟨ts, hts, hderives, hbalance, -⟩ := exists_statements_of_parse h
  obtain ⟨ts', hts', hderives', -, hbegins⟩ := exists_statements_of_parse h'
  have htext : (source ++ "\n" ++ source').toList = source.toList ++ '\n' :: source'.toList := by
    rw [String.toList_append, String.toList_append, List.append_assoc]
    rfl
  obtain ⟨us, us', hus, hus', hall⟩ := hts.join hts' hbegins hbalance
  rw [Lexeme.AlikeBehind] at hus'
  rw [← htext] at hus hus' hall
  obtain ⟨m, hfront, rfl⟩ := hderives.relocated hus
  obtain ⟨m', hback, rfl⟩ := hderives'.relocated hus'
  rw [Block.relocated_id] at hfront
  exact parse_of_delivers hall (hfront.statements_append hback)

/-- A source that ends inside a block, behind a comment and blanks, and one that begins with line
ends. -/
theorem parse_append_block :
    parse "if a:\n  b # c\n " =
        .ok [⟨⟨1, 1⟩, .branch (.name "a") [⟨⟨2, 3⟩, .eval (.name "b")⟩] none⟩] ∧
      parse "\n\nif c:\n  d" =
        .ok [⟨⟨3, 1⟩, .branch (.name "c") [⟨⟨4, 3⟩, .eval (.name "d")⟩] none⟩] ∧
      parse ("if a:\n  b # c\n " ++ "\n" ++ "\n\nif c:\n  d") =
        .ok ([⟨⟨1, 1⟩, .branch (.name "a") [⟨⟨2, 3⟩, .eval (.name "b")⟩] none⟩] ++
          Block.relocated (.down 3)
            [⟨⟨3, 1⟩, .branch (.name "c") [⟨⟨4, 3⟩, .eval (.name "d")⟩] none⟩]) :=
  ⟨rfl, rfl, parse_append rfl rfl⟩

end Sangria
