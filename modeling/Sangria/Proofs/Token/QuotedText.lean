import Sangria.Proofs.Token.Munching
import Sangria.Text.Escape

/-!
# What stands inside quotes

The inside of a quoted text is made of pieces: characters that stand for themselves, and pairs of a
backslash and the character that it takes with it. Finding the closing quote and reading the escapes
each take a text apart on their own. Both go along its pieces (`exists_pieces_of_closingQuote`,
`QuotedPiece.unescape_written`), and a text has no two rows of pieces
(`QuotedPiece.written_injective`), so they never disagree on which backslash begins a pair.

The string literals are the pieces in quotes (`munch_inQuotes`, `exists_pieces_of_munch`).
-/

namespace Sangria

/-- A piece of what stands inside quotes. -/
inductive QuotedPiece
  /-- A character that begins no pair. -/
  | plain (c : Char) (ne_backslash : c ≠ '\\')
  /-- A backslash with the character behind it. -/
  | pair (c : Char)

namespace QuotedPiece

/-- A piece as it is written. -/
def text : QuotedPiece → List Char
  | plain c _ => [c]
  | pair c => ['\\', c]

/-- What a piece stands for: a known pair for its character, anything else for itself. -/
def meaning : QuotedPiece → List Char
  | plain c _ => [c]
  | pair c => match escapeMeaning? c with
    | some d => [d]
    | none => ['\\', c]

/-- Pieces as they are written in a row. -/
def written (ps : List QuotedPiece) : List Char :=
  ps.flatMap text

/-- What pieces in a row stand for. -/
def meant (ps : List QuotedPiece) : List Char :=
  ps.flatMap meaning

/-- Whether a piece can stand inside quotes `q`: the quote only in a pair, and no newline. -/
def Inside (q : Char) : QuotedPiece → Prop
  | plain c _ => c ≠ q ∧ c ≠ '\n'
  | pair c => c ≠ '\n'

/-- The piece that a character is written as inside quotes `q`. -/
def ofChar (q c : Char) : QuotedPiece :=
  if h : c = q ∨ c = '\\' then pair c
  else if c = '\n' then pair 'n'
  else if c = '\t' then pair 't'
  else plain c fun hc ↦ h (.inr hc)

theorem text_ofChar (q c : Char) : (ofChar q c).text = escapeChar q c := by
  rw [ofChar, escapeChar]
  split
  · rfl
  · split
    · rfl
    · split <;> rfl

theorem inside_ofChar {q : Char} (hq : q ≠ '\n') (c : Char) : (ofChar q c).Inside q := by
  rw [ofChar]
  split
  · rename_i h
    rintro rfl
    exact h.elim (fun h ↦ hq h.symm) (by decide)
  · rename_i h
    split
    · exact (by decide : 'n' ≠ '\n')
    · rename_i hline
      split
      · exact (by decide : 't' ≠ '\n')
      · exact ⟨fun hc ↦ h (.inl hc), hline⟩

/-- An escaped text is made of the pieces of its characters. -/
theorem escape_eq_written (q : Char) (s : List Char) : escape q s = written (s.map (ofChar q)) := by
  rw [escape, written, List.flatMap_map]
  exact congrArg (List.flatMap · s) (funext fun c ↦ (text_ofChar q c).symm)

theorem inside_of_mem_map_ofChar {q : Char} (hq : q ≠ '\n') (s : List Char) :
    ∀ p ∈ s.map (ofChar q), p.Inside q := by
  intro p hp
  obtain ⟨c, -, rfl⟩ := List.mem_map.1 hp
  exact inside_ofChar hq c

theorem text_ne_nil (p : QuotedPiece) : p.text ≠ [] := by
  cases p <;> exact List.cons_ne_nil _ _

/-- There is no more than one way to take a text apart into pieces. -/
theorem written_injective : Function.Injective written := by
  intro ps ps' h
  induction ps generalizing ps' with
  | nil =>
    rcases ps' with - | ⟨p, ps'⟩
    · rfl
    · exact absurd (List.append_eq_nil_iff.1 h.symm).1 p.text_ne_nil
  | cons p ps ih =>
    rcases ps' with - | ⟨p', ps'⟩
    · exact absurd (List.append_eq_nil_iff.1 h).1 p.text_ne_nil
    · -- the first character tells a pair from the others
      rcases p with ⟨c, hc⟩ | c <;> rcases p' with ⟨c', hc'⟩ | c'
      · obtain ⟨rfl, hrest⟩ := List.cons.inj (show c :: written ps = c' :: written ps' from h)
        rw [ih hrest]
      · exact absurd (List.cons.inj (show c :: _ = '\\' :: _ from h)).1 hc
      · exact absurd (List.cons.inj (show '\\' :: _ = c' :: _ from h)).1.symm hc'
      · obtain ⟨rfl, hrest⟩ := List.cons.inj (List.cons.inj
          (show '\\' :: c :: written ps = '\\' :: c' :: written ps' from h)).2
        rw [ih hrest]

/-- The escapes are read piece by piece. -/
theorem unescape_written (ps : List QuotedPiece) : unescape (written ps) = meant ps := by
  induction ps with
  | nil => rfl
  | cons p ps ih =>
    rw [meant, List.flatMap_cons, ← meant, ← ih]
    rcases p with ⟨c, hc⟩ | c
    · exact unescape_cons hc _
    · show unescape ('\\' :: c :: written ps) = meaning (pair c) ++ unescape (written ps)
      rw [unescape, meaning]
      split
      · rename_i hc
        subst hc
        rfl
      · cases escapeMeaning? c <;> rfl

end QuotedPiece

/-- Pieces in quotes. -/
def inQuotes (q : Char) (ps : List QuotedPiece) : List Char :=
  q :: (QuotedPiece.written ps ++ [q])

open QuotedPiece

section Quoted

variable {q : Char} {text : List Char} {n : Nat} {ps : List QuotedPiece}

/-- A piece is passed over. -/
theorem closingQuote_piece {p : QuotedPiece} (h : p.Inside q) (rest : List Char) :
    closingQuote q (p.text ++ rest) = (closingQuote q rest).map (· + p.text.length) := by
  rcases p with ⟨c, hc⟩ | c
  · show closingQuote q (c :: rest) = _
    rw [closingQuote_of_ne_backslash hc, if_neg h.1, if_neg h.2]
    rfl
  · show closingQuote q ('\\' :: c :: rest) = _
    rw [closingQuote, if_neg h]
    rfl

/-- The closing quote is the one behind the pieces. -/
theorem closingQuote_pieces (hq : q ≠ '\\') (h : ∀ p ∈ ps, p.Inside q) (rest : List Char) :
    closingQuote q (written ps ++ q :: rest) =
      some ((written ps).length + 1) := by
  induction ps with
  | nil =>
    show closingQuote q (q :: rest) = some 1
    rw [closingQuote_of_ne_backslash hq, if_pos rfl]
  | cons p ps ih =>
    obtain ⟨hp, hps⟩ := List.forall_mem_cons.1 h
    rw [written, List.flatMap_cons, ← written, List.append_assoc, closingQuote_piece hp, ih hps,
      Option.map_some, List.length_append]
    congr 1
    omega

/-- What stands before the closing quote is made of pieces. -/
theorem exists_pieces_of_closingQuote (h : closingQuote q text = some n) :
    ∃ ps rest, (∀ p ∈ ps, p.Inside q) ∧ text = written ps ++ q :: rest ∧
      n = (written ps).length + 1 := by
  induction text using quoted_induction generalizing n with
  | nil => exact absurd h (by simp [closingQuote])
  | lone => exact absurd h (by simp [closingQuote])
  | pair c rest ih =>
    rw [closingQuote] at h
    obtain ⟨hc, h⟩ := Option.ite_none_left_eq_some.1 h
    obtain ⟨m, hm, rfl⟩ := Option.map_eq_some_iff.1 h
    obtain ⟨ps, rest, hps, rfl, rfl⟩ := ih hm
    exact ⟨pair c :: ps, rest, List.forall_mem_cons.2 ⟨hc, hps⟩, rfl, rfl⟩
  | plain c rest hc ih =>
    rw [closingQuote_of_ne_backslash hc] at h
    split at h
    · rename_i hclose
      obtain rfl := Option.some.inj h
      exact ⟨[], rest, List.forall_mem_nil _, hclose ▸ rfl, rfl⟩
    · rename_i hclose
      obtain ⟨hline, h⟩ := Option.ite_none_left_eq_some.1 h
      obtain ⟨m, hm, rfl⟩ := Option.map_eq_some_iff.1 h
      obtain ⟨ps, rest, hps, rfl, rfl⟩ := ih hm
      exact ⟨plain c hc :: ps, rest, List.forall_mem_cons.2 ⟨⟨hclose, hline⟩, hps⟩, rfl, rfl⟩

/-- A character that quotes a text. -/
def IsQuote (q : Char) : Prop :=
  q = '"' ∨ q = '\''

theorem IsQuote.ne_backslash (hq : IsQuote q) : q ≠ '\\' := by
  rcases hq with rfl | rfl <;> decide

theorem IsQuote.ne_newline (hq : IsQuote q) : q ≠ '\n' := by
  rcases hq with rfl | rfl <;> decide

theorem munch_of_isQuote (hq : IsQuote q) (rest : List Char) :
    munch (q :: rest) = (closingQuote q rest).map fun n ↦ (.literal .string, n + 1) := by
  have hstart : ¬ isWordStart q = true := by
    rcases hq with rfl | rfl <;> decide
  rw [munch, if_neg hq.ne_newline, if_neg hstart]
  exact if_pos hq

/-- Pieces in quotes are a token, whatever stands behind them. -/
theorem munch_inQuotes (hq : IsQuote q) (h : ∀ p ∈ ps, p.Inside q) (rest : List Char) :
    munch (inQuotes q ps ++ rest) = some (.literal .string, (inQuotes q ps).length) := by
  rw [inQuotes, List.cons_append, List.append_assoc, List.singleton_append, munch_of_isQuote hq,
    closingQuote_pieces hq.ne_backslash h, Option.map_some, List.length_cons, List.length_append]
  rfl

/-- No other token is a string literal. -/
theorem isQuote_of_munch {c : Char} {rest : List Char}
    (h : munch (c :: rest) = some (.literal .string, n)) : IsQuote c := by
  have hsigns : ∀ s ∈ signs, s.2 ≠ .literal .string := by decide
  have hreserved : ∀ w ∈ reservedWords, w.2 ≠ .literal .string := by decide
  rw [munch] at h
  split at h
  · exact absurd h (by simp)
  · split at h
    · have hkind : wordKind ((c :: rest).takeWhile isWordChar) = .literal .string :=
        (Prod.mk.inj (Option.some.inj h)).1
      rcases wordKind_cases ((c :: rest).takeWhile isWordChar) with hname | hmem
      · exact absurd (hname.symm.trans hkind) (by simp)
      · exact absurd hkind (hreserved _ hmem)
    · split at h
      · assumption
      · rcases Option.or_eq_some_iff.1 h with h | ⟨-, h⟩
        · exact absurd (munchNumber_length h).2.2 (by simp)
        · obtain ⟨s, hs, heq⟩ := Option.map_eq_some_iff.1 h
          exact absurd (Prod.mk.inj heq).1 (hsigns s (List.mem_of_find?_eq_some hs))

/-- A string literal is made of pieces in quotes. -/
theorem exists_pieces_of_munch {c : Char} {rest : List Char}
    (h : munch (c :: rest) = some (.literal .string, n)) :
    IsQuote c ∧ ∃ ps, (∀ p ∈ ps, p.Inside c) ∧ (c :: rest).take n = inQuotes c ps := by
  have hq := isQuote_of_munch h
  rw [munch_of_isQuote hq] at h
  obtain ⟨m, hm, heq⟩ := Option.map_eq_some_iff.1 h
  obtain ⟨-, rfl⟩ := Prod.mk.inj heq
  obtain ⟨ps, behind, hps, rfl, rfl⟩ := exists_pieces_of_closingQuote hm
  refine ⟨hq, ps, hps, ?_⟩
  rw [inQuotes, List.take_succ_cons, List.take_length_add_append]
  rfl

end Quoted

end Sangria
