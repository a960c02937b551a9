import Sangria.Proofs.Parse.OneLine
import Sangria.Proofs.Token.QuotedText

/-!
# String literals

A text that is written as a string literal, with either quote, is one token and is parsed as the
text; and whatever string literal is found in a source, what stands inside its quotes is made of
pieces in one way only, and the value that is built for it is what those pieces stand for
(`parse_quote_and_pieces`).

The first rests on the pieces that characters are escaped as, which stand for the characters
(`meant_map_ofChar`), and the second on the pieces that the closing quote is found behind.
-/

namespace Sangria

/-- A text as a string literal with quotes `q`. -/
def quote (q : Char) (v : String) : String :=
  String.ofList (q :: (escape q v.toList ++ [q]))

/-- A source that is one token has that token, the end of its line and the end of the source. -/
theorem tokenize_of_munch {source : String} {k : Kind}
    (hmunch : munch source.toList = some (k, source.toList.length)) (hk : k ≠ .newline) :
    tokenize source = .ok [⟨k, source, ⟨1, 1⟩⟩, ⟨.newline, "", .ofEnd source.toList⟩,
      TokenStream.eofToken source.toList] := by
  have hdeliveries := deliveries_of_munch hmunch hk
  have hend : Scanner.scan ⟨[], source.toList.length, 1⟩ =
      .finished ⟨[], source.toList.length + 1, 1⟩ := rfl
  rw [List.take_length, List.drop_length, String.ofList_toList, deliveries_of_finished hend]
    at hdeliveries
  have hdelivers : Delivers source.toList (.ofText source.toList) .initial
      [⟨k, source, 1, 0⟩, ⟨.newline, "", 1, source.toList.length⟩] :=
    deliveries_eq_iff.1 hdeliveries
  exact tokenize_eq_ok_iff.2 ⟨_, hdelivers, rfl⟩

section Quotes

variable {q : Char} {v : String}

/-- Reading the inside of a literal gives what its pieces stand for. -/
theorem literalValue_inQuotes (q : Char) (ps : List QuotedPiece) :
    literalValue .string (inQuotes q ps) = .ok (.text (String.ofList (QuotedPiece.meant ps))) := by
  show Except.ok (Literal.text (String.ofList
    (unescape ((QuotedPiece.written ps ++ [q]).dropLast)))) = _
  rw [List.dropLast_concat, QuotedPiece.unescape_written]

theorem toList_quote (q : Char) (v : String) :
    (quote q v).toList = inQuotes q (v.toList.map (QuotedPiece.ofChar q)) := by
  rw [quote, String.toList_ofList, QuotedPiece.escape_eq_written, inQuotes]

/-- The pieces that a text is escaped as stand for the text. -/
theorem meant_map_ofChar (hq : IsQuote q) (v : List Char) :
    QuotedPiece.meant (v.map (QuotedPiece.ofChar q)) = v := by
  rw [← QuotedPiece.unescape_written, ← QuotedPiece.escape_eq_written, unescape_escape hq]

theorem tokenize_quote (hq : IsQuote q) (v : String) :
    tokenize (quote q v) = .ok [⟨.literal .string, quote q v, ⟨1, 1⟩⟩,
      ⟨.newline, "", .ofEnd (quote q v).toList⟩, TokenStream.eofToken (quote q v).toList] := by
  have hinside := QuotedPiece.inside_of_mem_map_ofChar hq.ne_newline v.toList
  have hmunch := munch_inQuotes hq hinside []
  rw [List.append_nil, ← toList_quote] at hmunch
  exact tokenize_of_munch hmunch (by simp)

theorem parse_quote (hq : IsQuote q) (v : String) :
    parse (quote q v) = .ok [⟨⟨1, 1⟩, .eval (.literal (.text v))⟩] := by
  have hvalue : literalValue .string (quote q v).toList = .ok (.text v) := by
    rw [toList_quote, literalValue_inQuotes, meant_map_ofChar hq, String.ofList_toList]
  have hspells := Printed.Spells.atom (spellsPhrase_literal (w := ⟨.literal .string, _⟩) rfl hvalue)
  refine parse_of_inOneLine (tokenize_quote hq v) ?_ rfl (List.forall_mem_singleton.2 rfl)
    hspells.spellsPhrase
  show [(_, _), (_, _), (_, _)] = [(_, String.ofList (quote q v).toList), (_, _), (_, _)]
  rw [String.ofList_toList]
  rfl

theorem inQuotes_injective {q' : Char} {ps ps' : List QuotedPiece}
    (h : inQuotes q ps = inQuotes q' ps') : q = q' ∧ ps = ps' := by
  obtain ⟨rfl, hinside⟩ := List.cons.inj h
  exact ⟨rfl, QuotedPiece.written_injective (List.append_cancel_right hinside)⟩

/-- The inside of a string literal that is found is made of pieces. -/
theorem exists_pieces_of_scan {s next : Scanner} {t : Lexeme} (h : s.scan = .lexeme t next)
    (hkind : t.kind = .literal .string) :
    ∃ q ps, IsQuote q ∧ (∀ p ∈ ps, p.Inside q) ∧ t.text.toList = inQuotes q ps := by
  obtain ⟨c, rest, n, -, hmunch, htext, -⟩ := Scanner.exists_munch_of_scan h
  rw [hkind] at hmunch
  obtain ⟨hq, ps, hps, htake⟩ := exists_pieces_of_munch hmunch
  exact ⟨c, ps, hq, hps, by rw [htext, String.toList_ofList, htake]⟩

end Quotes

/-- Any text, written between either quotes with its backslashes, quotes of that kind, newlines and
tabs escaped, is one token with all that was written, in front of the end of its line and that of
the source, and is parsed as the text.

And what stands inside the quotes of any string literal that a scanner finds is made of pieces,
characters and pairs of a backslash and a character, in one way only; the value that is built for
the literal is what is left when each known pair is replaced by its character. -/
theorem parse_quote_and_pieces :
    (∀ q, IsQuote q → ∀ v : String,
      tokenize (quote q v) = .ok [⟨.literal .string, quote q v, ⟨1, 1⟩⟩,
        ⟨.newline, "", .ofEnd (quote q v).toList⟩, TokenStream.eofToken (quote q v).toList] ∧
      parse (quote q v) = .ok [⟨⟨1, 1⟩, .eval (.literal (.text v))⟩]) ∧
    ∀ (s next : Scanner) (t : Lexeme), s.scan = .lexeme t next → t.kind = .literal .string →
      ∃ q ps, IsQuote q ∧ (∀ p ∈ ps, p.Inside q) ∧ t.text.toList = inQuotes q ps ∧
        (∀ q' ps', t.text.toList = inQuotes q' ps' → q' = q ∧ ps' = ps) ∧
        ∀ text start, build text start (.literal .string) [.token t] =
          .ok (.expr (.literal (.text (String.ofList (QuotedPiece.meant ps))))) := by
  refine ⟨fun q hq v ↦ ⟨tokenize_quote hq v, parse_quote hq v⟩, fun s next t hs hkind ↦ ?_⟩
  obtain ⟨q, ps, hq, hps, htext⟩ := exists_pieces_of_scan hs hkind
  refine ⟨q, ps, hq, hps, htext, fun q' ps' htext' ↦ ?_, fun text start ↦ ?_⟩
  · exact inQuotes_injective (htext'.symm.trans htext)
  · show ((literalValue .string t.text.toList).map fun v ↦ Meaning.expr (.literal v)) = _
    rw [htext, literalValue_inQuotes]
    rfl

/-- A text with an apostrophe, a backslash and a newline between apostrophes, and a literal with a
pair that is not known, one that is, and a backslash that takes a backslash before the quote. -/
theorem parse_quote_and_pieces_apostrophes :
    parse "'it\\'s \\\\\\n'" = .ok [⟨⟨1, 1⟩, .eval (.literal (.text "it's \\\n"))⟩] ∧
      ∃ t next, (Scanner.ofText "'\\q\\t\\\\' + 1".toList).scan = .lexeme t next ∧
        build [] 0 (.literal .string) [.token t] = .ok (.expr (.literal (.text "\\q\t\\"))) := by
  have hparse := (parse_quote_and_pieces.1 '\'' (.inr rfl) "it's \\\n").2
  have hscan : (Scanner.ofText "'\\q\\t\\\\' + 1".toList).scan =
      .lexeme ⟨.literal .string, "'\\q\\t\\\\'", 1, 0⟩ ⟨" + 1".toList, 8, 1⟩ := by rfl
  obtain ⟨q, ps, -, -, htext, hunique, hbuild⟩ := parse_quote_and_pieces.2 _ _ _ hscan rfl
  have hpieces := hunique '\'' [.pair 'q', .pair 't', .pair '\\'] rfl
  obtain ⟨-, rfl⟩ := hpieces
  exact ⟨hparse, _, _, hscan, hbuild [] 0⟩

end Sangria
