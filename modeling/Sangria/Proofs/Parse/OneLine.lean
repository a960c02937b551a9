import Sangria.Proofs.Grammar.Completeness
import Sangria.Proofs.Parse.Soundness
import Sangria.Proofs.Printing.Program
import Sangria.Proofs.Printing.Spelling
import Sangria.Proofs.Token.Canonical

/-!
# Sources of one line

A source may write the words of an expression with any blanks, comments and line ends that leave
them in one logical line (`InOneLine`). It is parsed to the expression, at the place of its first
word (`parse_of_inOneLine`). That rests on the completeness of the parser, which asks for the kinds
and the texts of the tokens only.

A source that begins with a token delivers it from its start (`deliveries_of_munch`), so what is
printed for an expression is such a source, with the first word at the start
(`exists_tokens_print`).
-/

namespace Sangria

/-- What a word says: its kind and its text. -/
def Word.said (w : Word) : Kind × String :=
  (w.kind, String.ofList w.text)

/-- Tokens are words in one logical line, and the end of the source. -/
def InOneLine (tokens : List Token) (ws : List Word) : Prop :=
  tokens.map Token.said = ws.map Word.said ++ [(.newline, ""), (.eof, "")]

/-! ### What stands in one line is parsed -/

section Lines

variable {text : List Char} {ts : List Lexeme} {ws : List Word} {e : Expr}

/-- Lexemes that say what words say are those words. -/
theorem writes_of_map_said (hws : ∀ w ∈ ws, w.kind.isWord = true)
    (h : ts.map Lexeme.said = ws.map Word.said) : List.Forall₂ Lexeme.Writes ts ws := by
  induction ws generalizing ts with
  | nil =>
    rw [List.map_eq_nil_iff.1 h]
    exact .nil
  | cons w ws ih =>
    obtain ⟨hw, hws⟩ := List.forall_mem_cons.1 hws
    obtain ⟨t, ts, rfl, ht, hts⟩ := List.map_eq_cons_iff.1 h
    obtain ⟨hkind, htext⟩ := Prod.mk.inj ht
    rw [if_pos (hkind ▸ hw)] at htext
    exact .cons ⟨hkind, htext⟩ (ih hws hts)

/-- What is delivered for words in one line are those words and the end of the line. -/
theorem Delivers.exists_line {s : Scanner} {l : Layout} (h : Delivers text s l ts)
    (hws : ∀ w ∈ ws, w.kind.isWord = true)
    (hline : InOneLine (ts.map (TokenStream.token text) ++ [TokenStream.eofToken text]) ws) :
    ∃ us t, ts = us ++ [t] ∧ List.Forall₂ Lexeme.Writes us ws ∧ t.kind = .newline := by
  have hsaid : ts.map Lexeme.said = ws.map Word.said ++ [(.newline, "")] := by
    rw [InOneLine, List.map_append, h.map_said] at hline
    exact List.append_cancel_right
      (hline.trans (List.append_assoc _ [(Kind.newline, "")] [(Kind.eof, "")]).symm)
  obtain ⟨us, vs, rfl, hus, hvs⟩ := List.map_eq_append_iff.1 hsaid
  obtain ⟨t, vs, rfl, ht, hvs⟩ := List.map_eq_cons_iff.1 hvs
  obtain rfl := List.map_eq_nil_iff.1 hvs
  exact ⟨us, t, rfl, writes_of_map_said hws hus, congrArg Prod.fst ht⟩

/-- The words of an expression and the end of their line derive a program. -/
theorem derives_program (text : List Char) {us : List Lexeme} {t : Lexeme}
    (h : SpellsPhrase ws .expr (.expr e)) (hus : List.Forall₂ Lexeme.Writes us ws)
    (ht : t.kind = .newline) :
    Derives text (.phrase .program)
      (.block [⟨.ofOffset text (Derivation.start (us ++ [t])), .eval e⟩]) (us ++ [t]) := by
  have hbare := Derives.phrase (p := .bare) rfl (.single (h text us hus)) rfl
  have hsimple := Derives.phrase (p := .simpleBare) rfl (.single hbare) rfl
  have hstatement := Derives.phrase (p := .simple) rfl (.cons hsimple (.token ht .nil)) rfl
  have hfirst := Derives.phrase (p := .firstStatement) rfl (.single hstatement) rfl
  exact Derives.phrase (p := .program) rfl (.single hfirst) rfl

end Lines

/-- A source whose tokens are the words of an expression, in one line, is parsed to the expression
at the position of the first token. -/
theorem parse_of_inOneLine {source : String} {tokens : List Token} {ws : List Word} {e : Expr}
    {p : Position} (htokens : tokenize source = .ok tokens) (hline : InOneLine tokens ws)
    (hfirst : tokens.head?.map Token.position = some p) (hws : ∀ w ∈ ws, w.kind.isWord = true)
    (h : SpellsPhrase ws .expr (.expr e)) : parse source = .ok [⟨p, .eval e⟩] := by
  obtain ⟨ts, hdelivers, rfl⟩ := tokenize_eq_ok_iff.1 htokens
  obtain ⟨us, t, rfl, hus, ht⟩ := hdelivers.exists_line hws hline
  obtain ⟨d, hvalid, hsymbol, hd, hvalue⟩ := derives_program source.toList h hus ht
  obtain rfl : .ofOffset source.toList (Derivation.start (us ++ [t])) = p := by
    rcases us with - | ⟨u, us⟩ <;> exact Option.some.inj hfirst
  have hread := readProgram_of_derivation hvalid hsymbol hvalue
  rw [hd] at hread
  rw [parse_eq_readProgram, deliveries_eq_iff.2 hdelivers, hread]

/-! ### Sources that begin with a token -/

/-- A token at the start of a source is delivered there, before all others. -/
theorem deliveries_of_munch {text : List Char} {k : Kind} {n : Nat}
    (hmunch : munch text = some (k, n)) (hk : k ≠ .newline) :
    deliveries text (.ofText text) .initial =
      .ok ⟨k, String.ofList (text.take n), 1, 0⟩ ::
        deliveries text ⟨text.drop n, n, 1⟩ ⟨[], Layout.depthAfter 0 k, false⟩ := by
  rcases text with - | ⟨c, rest⟩
  · exact absurd hmunch (by simp [munch])
  have hgap : gap (c :: rest) = 0 := gap_of_munch (by rw [hmunch]; exact Option.some_ne_none _)
  have hscan : (Scanner.ofText (c :: rest)).scan =
      .lexeme ⟨k, String.ofList ((c :: rest).take n), 1, 0⟩ ⟨(c :: rest).drop n, n, 1⟩ := by
    simp only [Scanner.scan, Scanner.ofText, Scanner.skip, hgap, List.drop_zero, hmunch, if_neg hk,
      Nat.zero_add, Nat.add_zero]
  have htake : Layout.initial.take (c :: rest) ⟨k, String.ofList ((c :: rest).take n), 1, 0⟩ =
      ([⟨k, String.ofList ((c :: rest).take n), 1, 0⟩],
        .ok ⟨[], Layout.depthAfter 0 k, false⟩) := by
    rw [Layout.take, if_neg hk]
    rfl
  exact deliveries_of_lexeme hscan htake

/-- Words that are delivered say what they are. -/
theorem map_said_of_writes {ts : List Lexeme} {ws : List Word}
    (hws : ∀ w ∈ ws, w.kind.isWord = true) (h : List.Forall₂ Lexeme.Writes ts ws) :
    ts.map Lexeme.said = ws.map Word.said := by
  induction h with
  | nil => rfl
  | cons hfirst _ ih =>
    obtain ⟨hw, hws⟩ := List.forall_mem_cons.1 hws
    obtain ⟨hkind, htext⟩ := hfirst
    rw [List.map_cons, List.map_cons, ih hws, Lexeme.said, Word.said, hkind, if_pos hw, htext]

/-- The words that are printed for an expression stand in one line, from the start of the source. -/
theorem exists_tokens_print {e : Expr} (h : e.Printable) (p : Position) :
    ∃ tokens, tokenize (Block.print [⟨p, .eval e⟩]) = .ok tokens ∧
      InOneLine tokens e.print.words ∧ tokens.head?.map Token.position = some ⟨1, 1⟩ := by
  have hprintable : Block.Printable [⟨p, .eval e⟩] :=
    ⟨List.cons_ne_nil _ _, List.forall_mem_singleton.2 (.eval h)⟩
  obtain ⟨ts, hts, hdeliveries⟩ := hprintable.exists_deliveries
  have hannounced : announced 0 (Block.lines 0 [⟨p, .eval e⟩]) = e.print.words ++ [.newline] := rfl
  rw [hannounced] at hts
  have hwords : ∀ w ∈ e.print.words, w.kind.isWord = true :=
    fun w hw ↦ (h.tidy_print.legible w hw).isWord
  refine ⟨_, tokenize_eq_ok_iff.2 ⟨ts, deliveries_eq_iff.1 hdeliveries, rfl⟩, ?_, ?_⟩
  · obtain ⟨us, vs, rfl, hus, hvs⟩ := exists_append_of_writes hts
    obtain ⟨t, vs, rfl, ht, hvs⟩ := exists_cons_of_writes hvs
    cases hvs
    rw [InOneLine, List.map_append, (deliveries_eq_iff.1 hdeliveries).map_said, List.map_append,
      map_said_of_writes hwords hus, List.map_singleton, t.said_of_newline ht.1, List.append_assoc]
    rfl
  · -- the first word is at the start, because nothing is written before it
    obtain ⟨a, ws, hcons⟩ := List.exists_cons_of_ne_nil h.words_ne_nil
    rw [hcons] at hwords
    have hlegible := h.tidy_print.legible
    rw [hcons, List.forall_mem_cons] at hlegible
    have htext : (Block.print [⟨p, .eval e⟩]).toList = a.text ++ (a.behind ws ++ ['\n']) := by
      rw [Block.print, String.toList_ofList]
      show linesText [⟨0, e.print.words⟩] = _
      rw [hcons]
      simp [linesText, Line.text, spaced]
    have hmunch := hlegible.1.munch_append (endsBefore_head_behind hlegible.2 [])
    rw [← htext] at hmunch
    rw [deliveries_of_munch hmunch hlegible.1.ne_newline] at hdeliveries
    rcases ts with - | ⟨t, ts⟩
    · exact absurd hdeliveries (by simp)
    · rw [List.map_cons] at hdeliveries
      obtain rfl := Except.ok.inj (List.cons.inj hdeliveries).1
      rfl

end Sangria
