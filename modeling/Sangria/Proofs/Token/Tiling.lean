import Sangria.Proofs.Token.Editing

/-!
# Tokens tile their source

A source is a piece without tokens, a token, another such piece, and so on up to its end
(`Tiled`). The pieces between the tokens are made of blanks, newlines and comments (`Filler`), and
a newline stands there only inside parentheses or in a line that has no tokens. So no character is
lost, told twice, or told of the wrong place (`Tiles`). Where a source cannot be cut into tokens,
this holds of what lies before the fault (`tokenize_tiles`).

Tokens that are only announced take no part in this: they say nothing that is written.

## What each part rests on

* `Scanner.exists_piece_of_scan` says what a scanner passes over on the way to a token.
* `exists_tilesUpTo` follows a scanner through its source, up to the end or to a fault. What it says
  of newlines (`Layout.PassesOver`) rests on what the layout knows between two lexemes: how many
  parentheses are open, and whether a token stands in the line under way.
-/

namespace Sangria

/-! ### Pieces without tokens -/

/-- A piece of a text without tokens, in front of what stands behind it: blanks, newlines, and
comments, which go up to the next newline or to the end of the text. -/
inductive Filler (behind : List Char) : List Char → Prop
  /-- Nothing. -/
  | nil : Filler behind []
  /-- A blank or a newline. -/
  | char {c : Char} {piece : List Char} (char : isBlank c = true ∨ c = '\n')
      (later : Filler behind piece) : Filler behind (c :: piece)
  /-- A comment. -/
  | comment {words piece : List Char} (inside : '\n' ∉ words)
      (lineEnd : ∀ c ∈ (piece ++ behind).head?, c = '\n') (later : Filler behind piece) :
      Filler behind ('#' :: (words ++ piece))

namespace Filler

variable {behind piece front : List Char}

theorem append (h : Filler (front ++ behind) piece) (hfront : Filler behind front) :
    Filler behind (piece ++ front) := by
  induction h with
  | nil => exact hfront
  | char hc _ ih => exact .char hc ih
  | comment hinside hend _ ih =>
    rw [List.cons_append, List.append_assoc]
    exact .comment hinside (by rwa [List.append_assoc]) ih

theorem of_newlines (h : ∀ c ∈ piece, c = '\n') : Filler behind piece := by
  induction piece with
  | nil => exact .nil
  | cons c piece ih =>
    rw [List.forall_mem_cons] at h
    exact .char (.inr h.1) (ih h.2)

/-- A gap is a piece without tokens, of one line. -/
theorem of_gap (text : List Char) :
    Filler (text.drop (gap text)) (text.take (gap text)) ∧ '\n' ∉ text.take (gap text) := by
  induction hn : text.length generalizing text with
  | zero =>
    obtain rfl := List.length_eq_zero_iff.1 hn
    exact ⟨.nil, List.not_mem_nil⟩
  | succ n ih =>
    rcases gap_cases text with ⟨c, rest, rfl, hblank, hgap⟩ |
      ⟨words, rest, rfl, hwords, hend, hgap⟩ | hgap
    · obtain ⟨hfiller, hline⟩ := ih rest (Nat.succ.inj hn)
      rw [hgap, List.take_succ_cons, List.drop_succ_cons]
      refine ⟨.char (.inl hblank) hfiller, ?_⟩
      rw [List.mem_cons, not_or]
      exact ⟨fun hc ↦ absurd (hc ▸ hblank) (by decide), hline⟩
    · rw [hgap, List.take_succ_cons, List.drop_succ_cons, List.take_left, List.drop_left]
      refine ⟨?_, by simpa using hwords⟩
      have hcomment : Filler rest ('#' :: (words ++ [])) := .comment hwords hend .nil
      rwa [List.append_nil] at hcomment
    · rw [hgap]
      exact ⟨.nil, List.not_mem_nil⟩

end Filler

/-! ### Tokens and the pieces between them -/

/-- Whether a token is written: not a change of blocks, nor the end of the source or of a line that
is only announced there. -/
def Lexeme.isWritten (t : Lexeme) : Bool :=
  t.kind.isWord || (t.kind = .newline && t.text ≠ "")

/-- A text that stands at an offset, with something behind it, is made of tokens at their offsets
with pieces around them that have none. -/
inductive Tiled (back : List Char) : List Char → Nat → List Lexeme → Prop
  /-- Behind the last token there is only such a piece. -/
  | last {piece : List Char} {k : Nat} (filler : Filler back piece) : Tiled back piece k []
  /-- A piece stands before a token. -/
  | token {piece rest : List Char} {k : Nat} {t : Lexeme} {ts : List Lexeme}
      (filler : Filler (t.text.toList ++ (rest ++ back)) piece)
      (place : t.offset = k + piece.length) (written : t.text ≠ "")
      (later : Tiled back rest (t.offset + t.text.length) ts) :
      Tiled back (piece ++ (t.text.toList ++ rest)) k (t :: ts)

namespace Tiled

variable {back text piece : List Char} {k : Nat} {ts : List Lexeme}

/-- More of a piece may stand before the first token. -/
theorem prepend (hpiece : Filler (text ++ back) piece)
    (h : Tiled back text (k + piece.length) ts) : Tiled back (piece ++ text) k ts := by
  cases h with
  | last hfiller => exact .last (hpiece.append hfiller)
  | @token piece' rest _ t ts hfiller hplace hwritten hlater =>
    rw [← List.append_assoc]
    refine .token (Filler.append ?_ hfiller) ?_ hwritten hlater
    · rwa [List.append_assoc, List.append_assoc] at hpiece
    · rw [hplace, List.length_append, Nat.add_assoc]

/-- A token stands in the text, and says what is written where it stands. -/
theorem place_of_mem (h : Tiled back text k ts) :
    ∀ t ∈ ts, ∃ j, t.offset = k + j ∧ (text.drop j).take t.text.length = t.text.toList ∧
      0 < t.text.length := by
  induction h with
  | last => exact List.forall_mem_nil _
  | @token piece rest k t ts _ hplace hwritten _ ih =>
    refine List.forall_mem_cons.2 ⟨⟨piece.length, hplace, ?_, ?_⟩, fun u hu ↦ ?_⟩
    · rw [List.drop_left, ← String.length_toList, List.take_left]
    · rw [← String.length_toList, List.length_pos_iff, Ne, String.toList_eq_nil_iff]
      exact hwritten
    · obtain ⟨j, hj, htake, hpos⟩ := ih u hu
      refine ⟨piece.length + (t.text.length + j), by omega, ?_, hpos⟩
      rw [← List.drop_drop, List.drop_left, ← String.length_toList (s := t.text), ← List.drop_drop,
        List.drop_left, htake]

/-- A token ends before the next one begins. -/
theorem pairwise (h : Tiled back text k ts) :
    ts.Pairwise fun t u ↦ t.offset + t.text.length ≤ u.offset := by
  induction h with
  | last => exact .nil
  | token _ _ _ hlater ih =>
    refine .cons (fun u hu ↦ ?_) ih
    obtain ⟨j, hj, -⟩ := hlater.place_of_mem u hu
    omega

end Tiled

/-- Whether an offset lies in none of some tokens. -/
def Uncovered (ts : List Lexeme) (i : Nat) : Prop :=
  ∀ t ∈ ts, i < t.offset ∨ t.offset + t.text.length ≤ i

/-- Tokens tile the front of a source. -/
structure Tiles (front back : List Char) (ts : List Lexeme) : Prop where
  /-- They are all that stands there but for pieces without tokens. -/
  tiled : Tiled back front 0 ts
  /-- Each says what is written where it stands. -/
  written : ∀ t ∈ ts, (front.drop t.offset).take t.text.length = t.text.toList
  /-- They stand one behind the other. -/
  ordered : ts.Pairwise fun t u ↦ t.offset < u.offset
  /-- No two overlap. -/
  apart : ts.Pairwise fun t u ↦ t.offset + t.text.length ≤ u.offset
  /-- A newline that belongs to none stands inside parentheses, or in a line without tokens. -/
  newlines : ∀ i, front[i]? = some '\n' → Uncovered ts i →
    0 < openParens 0 ((ts.filter (·.offset < i)).map (·.kind)) ∨
      ∀ t ∈ ts, (Position.ofOffset (front ++ back) t.offset).line ≠
        (Position.ofOffset (front ++ back) i).line

/-- A token ends where the front does, or before. -/
theorem Tiles.end_le {front back : List Char} {ts : List Lexeme} (h : Tiles front back ts) :
    ∀ t ∈ ts, t.offset + t.text.length ≤ front.length := by
  intro t ht
  obtain ⟨j, hj, htake, hpos⟩ := h.tiled.place_of_mem t ht
  have hlength := congrArg List.length htake
  rw [List.length_take, List.length_drop, String.length_toList] at hlength
  omega

/-! ### What is passed over -/

/-- A token stands behind a piece of one line without tokens, and is followed by what is still to be
read. A line end is made of newlines. -/
theorem Scanner.exists_piece_of_scan {s next : Scanner} {t : Lexeme}
    (h : s.scan = .lexeme t next) :
    ∃ piece, s.rest = piece ++ (t.text.toList ++ next.rest) ∧
      Filler (t.text.toList ++ next.rest) piece ∧ '\n' ∉ piece ∧
      t.offset = s.offset + piece.length ∧ next.offset = t.offset + t.text.length ∧
      t.text ≠ "" ∧ (t.kind = .newline → ∀ c ∈ t.text.toList, c = '\n') := by
  obtain ⟨hfiller, hline⟩ := Filler.of_gap s.rest
  have hsplit := List.take_append_drop (gap s.rest) s.rest
  have hlength := List.length_take_of_le (gap_le s.rest)
  obtain ⟨c, rest, k, n, hrest, hmunch, rfl, rfl⟩ := exists_of_scan h
  obtain ⟨hpos, hle, hkind⟩ := munch_length hmunch
  have htoken : (String.ofList ((c :: rest).take n)).toList ++ (c :: rest).drop n = c :: rest := by
    rw [String.toList_ofList, List.take_append_drop]
  refine ⟨s.rest.take (gap s.rest), ?_, ?_, hline, by rw [hlength], ?_, ?_, fun hnewline ↦ ?_⟩
  · rw [htoken, ← hrest, hsplit]
  · rwa [htoken, ← hrest]
  · rw [String.length_ofList, List.length_take_of_le hle]
  · rw [Ne, String.ofList_eq_empty_iff, List.take_eq_nil_iff]
    exact not_or.2 ⟨Nat.ne_of_gt hpos, List.cons_ne_nil _ _⟩
  · obtain rfl : k = .newline := hnewline
    split at hkind
    · rename_i hc
      rw [munch, if_pos hc] at hmunch
      obtain ⟨-, rfl⟩ := Prod.mk.inj (Option.some.inj hmunch)
      rw [String.toList_ofList, ← List.prefix_iff_eq_take.1 (List.takeWhile_prefix _)]
      exact fun d hd ↦ by simpa using List.mem_takeWhile_imp hd
    · exact absurd hkind (by decide)

theorem Scanner.exists_of_illegal {s next : Scanner} {c : Char} (h : s.scan = .illegal c next) :
    ∃ rest, s.rest.drop (gap s.rest) = c :: rest ∧ next = s.skip (gap s.rest) := by
  unfold scan at h
  dsimp only at h
  split at h
  · exact absurd h (by simp)
  · rename_i rest hrest
    split at h
    · obtain ⟨rfl, rfl⟩ := Scan.illegal.inj h
      exact ⟨rest, hrest, rfl⟩
    · exact absurd h (by simp)

/-- No token begins with an illegal character. -/
theorem Scanner.munch_of_illegal {s next : Scanner} {c : Char}
    (h : s.scan = .illegal c next) :
    munch (s.rest.drop (gap s.rest)) = none := by
  unfold scan at h
  dsimp only at h
  split at h
  · exact absurd h (by simp)
  · split at h
    · rename_i hmunch
      exact hmunch
    · exact absurd h (by simp)

/-- A lexeme adds itself behind what it announces, unless it is a line end that comes to nothing. -/
theorem Layout.exists_of_take {text : List Char} {l l' : Layout} {t : Lexeme}
    {tokens : List Lexeme} (h : l.take text t = (tokens, .ok l'))
    (ht : t.kind = .newline ∨ t.kind.isWord = true) (hwritten : t.text ≠ "") :
    (tokens = [] ∧ t.kind = .newline ∧ l.Skips) ∨
      (t ∈ tokens ∧ tokens.filter (·.isWritten) = [t]) := by
  have hself : t.isWritten = true := by
    rcases ht with ht | ht
    · simp [Lexeme.isWritten, ht, hwritten]
    · simp [Lexeme.isWritten, ht]
  by_cases hskips : t.kind = .newline ∧ l.Skips
  · obtain ⟨hkind, hskips⟩ := hskips
    exact .inl ⟨(Prod.mk.inj ((take_of_skips hskips hkind).symm.trans h)).1.symm, hkind, hskips⟩
  · refine .inr ?_
    have htakes := takes_of_take h
    cases htakes with
    | skipped hkind =>
      have hnot : ¬l.Skips := fun hskips' ↦ hskips ⟨hkind, hskips'⟩
      exact absurd (Prod.mk.inj ((take_of_not_skips hnot hkind).symm.trans h)).1 (by simp)
    | ended => exact ⟨List.mem_singleton_self t, List.filter_cons_of_pos hself⟩
    | inside => exact ⟨List.mem_singleton_self t, List.filter_cons_of_pos hself⟩
    | opened =>
      refine ⟨List.mem_cons_of_mem _ (List.mem_singleton_self t), ?_⟩
      rw [List.filter_cons_of_neg (by simp [Lexeme.isWritten, unwritten, Kind.isWord]),
        List.filter_cons_of_pos hself, List.filter_nil]
    | closed =>
      refine ⟨List.mem_append_right _ (List.mem_singleton_self t), ?_⟩
      rw [List.filter_append, List.filter_cons_of_pos hself]
      simp [Lexeme.isWritten, unwritten, Kind.isWord]

/-- Tokens that are not written do not open or close parentheses. -/
theorem openParens_filter_isWritten (depth : Nat) (ts : List Lexeme) :
    openParens depth ((ts.filter (·.isWritten)).map (·.kind)) =
      openParens depth (ts.map (·.kind)) := by
  induction ts generalizing depth with
  | nil => rfl
  | cons t ts ih =>
    rcases ht : t.isWritten with - | -
    · rw [List.filter_cons_of_neg (by rw [ht]; exact Bool.false_ne_true), ih, List.map_cons]
      have hword : t.kind.isWord = false := (Bool.or_eq_false_iff.1 ht).1
      have hsame := openParens_of_not_isWord depth (List.forall_mem_singleton.2 hword)
      exact congrArg (openParens · (ts.map (·.kind))) hsame.symm
    · rw [List.filter_cons_of_pos ht]
      exact ih _

/-- What a layout at an offset knows of a newline that it passes over, with the written tokens that
are still to come: parentheses are open there, or no token stands before it in its line, be it one
of those or one before the offset. -/
def Layout.PassesOver (text : List Char) (l : Layout) (k : Nat) (ts : List Lexeme) (i : Nat) :
    Prop :=
  0 < openParens l.depth ((ts.filter (·.offset < i)).map (·.kind)) ∨
    (∀ t ∈ ts, t.offset < i → newlinesBefore text t.offset < newlinesBefore text i) ∧
      (l.fresh = false → newlinesBefore text k < newlinesBefore text i)

/-- What is known behind a lexeme is known before it. -/
theorem Layout.PassesOver.of_takes {text : List Char} {l l' : Layout} {t : Lexeme}
    {tokens ts : List Lexeme} {k next i : Nat} (h : l'.PassesOver text next ts i)
    (ht : l.Takes t tokens l') (hnewline : t.kind = .newline → text[t.offset]? = some '\n')
    (hk : k ≤ t.offset) (hnext : t.offset < next) (hi : next ≤ i) :
    l.PassesOver text k (tokens.filter (·.isWritten) ++ ts) i := by
  have hoffset (u : Lexeme) (hu : u ∈ tokens.filter (·.isWritten)) : u.offset = t.offset :=
    ht.offset_eq u (List.mem_of_mem_filter hu)
  rcases h with hopen | ⟨hapart, hline⟩
  · have hall : (tokens.filter (·.isWritten)).filter (·.offset < i) =
        tokens.filter (·.isWritten) := by
      refine List.filter_eq_self.2 fun u hu ↦ ?_
      rw [hoffset u hu]
      exact decide_eq_true (by omega)
    refine .inl ?_
    rw [List.filter_append, hall, List.map_append, openParens_append, openParens_filter_isWritten,
      ht.openParens_eq]
    exact hopen
  · have hlt : newlinesBefore text t.offset < newlinesBefore text i := by
      by_cases hkind : t.kind = .newline
      · exact newlinesBefore_lt (hnewline hkind) (by omega)
      · exact Nat.lt_of_le_of_lt (newlinesBefore_le text (Nat.le_of_lt hnext))
          (hline (ht.fresh_eq hkind))
    refine .inr ⟨List.forall_mem_append.2 ⟨fun u hu _ ↦ ?_, hapart⟩, fun _ ↦ ?_⟩
    · rw [hoffset u hu]
      exact hlt
    · exact Nat.lt_of_le_of_lt (newlinesBefore_le text hk) hlt

/-- A newline of a lexeme that comes to nothing is passed over. -/
theorem Layout.passesOver_of_skips {text : List Char} {l : Layout} {ts : List Lexeme} {k i : Nat}
    (hl : l.Skips) (hts : ∀ t ∈ ts, i < t.offset) : l.PassesOver text k ts i := by
  rcases hl with hdepth | hfresh
  · refine .inl ?_
    rw [List.filter_eq_nil_iff.2 fun t ht ↦ by simpa using Nat.le_of_lt (hts t ht)]
    exact hdepth
  · exact .inr ⟨fun t ht hlt ↦ absurd hlt (Nat.not_lt.2 (Nat.le_of_lt (hts t ht))),
      fun h ↦ absurd (hfresh.symm.trans h) (by decide)⟩

/-! ### Along a source -/

/-- A character of a text stands in its first part, its second, or behind both. -/
theorem cases_of_getElem? {piece token rest : List Char} {c : Char} {j : Nat}
    (h : (piece ++ (token ++ rest))[j]? = some c) :
    c ∈ piece ∨ (∃ m, j = piece.length + m ∧ m < token.length) ∨
      ∃ m, j = piece.length + (token.length + m) ∧ rest[m]? = some c := by
  rcases Nat.lt_or_ge j piece.length with hj | hj
  · rw [List.getElem?_append_left hj] at h
    exact .inl (List.mem_of_getElem? h)
  · obtain ⟨m, rfl⟩ := Nat.exists_eq_add_of_le hj
    rw [List.getElem?_append_right hj, Nat.add_sub_cancel_left] at h
    rcases Nat.lt_or_ge m token.length with hm | hm
    · exact .inr (.inl ⟨m, rfl, hm⟩)
    · obtain ⟨n, rfl⟩ := Nat.exists_eq_add_of_le hm
      rw [List.getElem?_append_right hm, Nat.add_sub_cancel_left] at h
      exact .inr (.inr ⟨n, rfl, h⟩)

/-- Written tokens tile what a scanner reads up to a place, and the layout knows of every newline
that belongs to none. -/
structure Layout.TilesUpTo (text : List Char) (s : Scanner) (l : Layout) (front back : List Char)
    (ts : List Lexeme) : Prop where
  /-- The place lies in what is still to be read. -/
  split : s.rest = front ++ back
  /-- The tokens tile what lies before it. -/
  tiled : Tiled back front s.offset ts
  /-- The layout knows of the other newlines there. -/
  newlines : ∀ j, front[j]? = some '\n' → Uncovered ts (s.offset + j) →
    l.PassesOver text s.offset ts (s.offset + j)

namespace Layout.TilesUpTo

variable {text front back : List Char} {s next : Scanner} {l l' : Layout} {t : Lexeme}
  {tokens ts : List Lexeme}

/-- Nothing is written in a gap, and it has no newline. -/
theorem of_gap (text : List Char) (s : Scanner) (l : Layout) :
    l.TilesUpTo text s (s.rest.take (gap s.rest)) (s.rest.drop (gap s.rest)) [] := by
  obtain ⟨hfiller, hline⟩ := Filler.of_gap s.rest
  exact ⟨(List.take_append_drop _ _).symm, .last hfiller,
    fun j hj ↦ absurd (List.mem_of_getElem? hj) hline⟩

/-- A lexeme adds itself to the tiles, or is passed over. -/
theorem of_lexeme (hscan : s.scan = .lexeme t next) (htake : l.take text t = (tokens, .ok l'))
    (hs : s.rest = text.drop s.offset) (h : l'.TilesUpTo text next front back ts) :
    ∃ before, next.offset = s.offset + before.length ∧ t.offset ≤ next.offset ∧
      l.TilesUpTo text s (before ++ front) back (tokens.filter (·.isWritten) ++ ts) := by
  obtain ⟨piece, hpiece, hfiller, hline, hplace, hnext, hwritten, hnewlines⟩ :=
    Scanner.exists_piece_of_scan hscan
  obtain ⟨hfront, htiled, hpasses⟩ := h
  have hlength : t.text.toList.length = t.text.length := String.length_toList
  have hpos : 0 < t.text.toList.length :=
    List.length_pos_iff.2 (mt String.toList_eq_nil_iff.1 hwritten)
  have hkind : t.kind = .newline ∨ t.kind.isWord = true :=
    (Scanner.kind_of_scan hscan).imp And.left id
  have hadds := Layout.exists_of_take htake hkind hwritten
  rw [hfront] at hpiece hfiller
  rw [hnext] at htiled
  refine ⟨piece ++ t.text.toList, by rw [List.length_append]; omega, by omega, ?_, ?_,
    fun j hj hj' ↦ ?_⟩
  · rw [hpiece, List.append_assoc, List.append_assoc]
  · rw [List.append_assoc]
    rcases hadds with ⟨rfl, hnewline, -⟩ | ⟨-, hself⟩
    · -- the line end becomes a part of the piece
      rw [List.filter_nil, List.nil_append]
      refine .prepend (by rwa [List.append_assoc]) ?_
      refine .prepend (.of_newlines (hnewlines hnewline)) ?_
      rwa [← hplace, hlength]
    · rw [hself]
      exact .token hfiller hplace hwritten htiled
  · rw [List.append_assoc] at hj
    obtain ⟨hself, hlater⟩ := List.forall_mem_append.1 hj'
    rcases cases_of_getElem? hj with hmem | ⟨m, rfl, hm⟩ | ⟨m, rfl, hm⟩
    · exact absurd hmem hline
    · rcases hadds with ⟨rfl, -, hskips⟩ | ⟨-, htokens⟩
      · refine passesOver_of_skips hskips fun u hu ↦ ?_
        obtain ⟨n, hn, -⟩ := htiled.place_of_mem u hu
        omega
      · -- a newline of a token that is delivered belongs to it
        have hcovers := hself t (htokens ▸ List.mem_singleton_self t)
        omega
    · have heq : s.offset + (piece.length + (t.text.toList.length + m)) = next.offset + m := by
        omega
      rw [heq] at hlater ⊢
      refine (hpasses m hm hlater).of_takes (takes_of_take htake) (fun hnewline ↦ ?_) (by omega)
        (by omega) (Nat.le_add_right _ _)
      -- a line end begins with a newline
      have hfirst : text[t.offset]? = t.text.toList[0]? := by
        rw [hplace, ← List.getElem?_drop, ← hs, hpiece, List.getElem?_append_right (Nat.le_refl _),
          Nat.sub_self, List.getElem?_append_left hpos]
      rw [hfirst, List.getElem?_eq_getElem hpos]
      exact congrArg some (hnewlines hnewline _ (List.getElem_mem _))

end Layout.TilesUpTo

/-- A scanner of a source goes on in it. -/
theorem Scanner.rest_of_scan {text : List Char} {s next : Scanner} {t : Lexeme}
    (h : s.scan = .lexeme t next) (hs : s.rest = text.drop s.offset) :
    next.rest = text.drop next.offset := by
  obtain ⟨c, rest, k, n, hrest, -, -, rfl⟩ := exists_of_scan h
  show (c :: rest).drop n = text.drop (s.offset + gap s.rest + n)
  rw [← List.drop_drop, ← List.drop_drop, ← hs, hrest]

/-- How what is delivered ends at an offset with something behind it: with nothing at the end of the
text, or with a fault before that. -/
def Stops (text : List Char) (k : Nat) (back : List Char) (ending : List Delivery) : Prop :=
  (ending = [] ∧ back = []) ∨
    back ≠ [] ∧ ∃ f : LexicalFault, ending = [.error (f.diagnostic text k)]

/-- What a scanner and a layout still deliver tiles what is left of the source, up to its end or to
a fault, and stands before that. -/
theorem exists_tilesUpTo (text : List Char) (s : Scanner) (l : Layout)
    (hs : s.rest = text.drop s.offset) :
    ∃ (ts : List Lexeme) (ending : List Delivery) (front back : List Char),
      deliveries text s l = ts.map .ok ++ ending ∧
      Stops text (s.offset + front.length) back ending ∧
      l.TilesUpTo text s front back (ts.filter (·.isWritten)) ∧
      ∀ t ∈ ts, t.offset ≤ s.offset + front.length := by
  have hlength (s : Scanner) := List.length_take_of_le (Scanner.gap_le s.rest)
  -- what is only announced where a gap ends
  have of_announced {s : Scanner} {l : Layout} {tokens : List Lexeme}
      (h : ∀ u ∈ tokens, u.isWritten = false ∧ u.offset ≤ s.offset + gap s.rest) :
      l.TilesUpTo text s (s.rest.take (gap s.rest)) (s.rest.drop (gap s.rest))
          (tokens.filter (·.isWritten)) ∧
        ∀ t ∈ tokens, t.offset ≤ s.offset + (s.rest.take (gap s.rest)).length := by
    rw [hlength, List.filter_eq_nil_iff.2 fun u hu ↦ by rw [(h u hu).1]; exact Bool.false_ne_true]
    exact ⟨.of_gap text s l, fun t ht ↦ (h t ht).2⟩
  induction s, l using deliveries_induction text with
  | finished s next l hscan =>
    have hend := Scanner.drop_gap_of_finished hscan
    refine ⟨l.close next.line text.length, [], s.rest.take (gap s.rest), s.rest.drop (gap s.rest),
      (List.append_nil _).symm, .inl ⟨rfl, hend⟩, of_announced fun u hu ↦ ?_⟩
    obtain ⟨hu, hoffset⟩ : u.isWritten = false ∧ u.offset = text.length := by
      rcases Layout.eq_of_mem_close hu with rfl | rfl <;> exact ⟨rfl, rfl⟩
    have hle := List.drop_eq_nil_iff.1 hend
    rw [hs, List.length_drop] at hle
    exact ⟨hu, by rw [hoffset, hs]; omega⟩
  | illegal s next l c hscan =>
    obtain ⟨rest, hrest, rfl⟩ := Scanner.exists_of_illegal hscan
    refine ⟨[], _, s.rest.take (gap s.rest), s.rest.drop (gap s.rest), rfl,
      .inr ⟨?_, .ofChar c, ?_⟩, of_announced (List.forall_mem_nil _)⟩
    · rw [hrest]
      exact List.cons_ne_nil _ _
    · rw [hlength]
      rfl
  | fault s next l t tokens f hscan htake =>
    obtain ⟨c, rest, k, n, hrest, -, rfl, -⟩ := Scanner.exists_of_scan hscan
    refine ⟨tokens, _, s.rest.take (gap s.rest), s.rest.drop (gap s.rest), rfl,
      .inr ⟨?_, f, ?_⟩, of_announced fun u hu ↦ ?_⟩
    · rw [hrest]
      exact List.cons_ne_nil _ _
    · rw [hlength]
    · obtain rfl := Layout.eq_unwritten_of_fault htake u hu
      exact ⟨rfl, Nat.le_refl _⟩
  | lexeme s next l l' t tokens hscan htake ih =>
    obtain ⟨ts, ending, front, back, hdeliveries, hstops, htiles, hoffsets⟩ :=
      ih (Scanner.rest_of_scan hscan hs)
    obtain ⟨before, hbefore, hle, htiles⟩ := htiles.of_lexeme hscan htake hs
    rw [hbefore, Nat.add_assoc, ← List.length_append] at hstops hoffsets
    refine ⟨tokens ++ ts, ending, before ++ front, back, ?_, hstops, by rwa [List.filter_append],
      List.forall_mem_append.2 ⟨fun u hu ↦ ?_, hoffsets⟩⟩
    · rw [hdeliveries, List.map_append, List.append_assoc]
    · rw [(Layout.takes_of_take htake).offset_eq u hu, List.length_append]
      omega

/-- The tokens of a source tile it up to where they stop. -/
theorem Layout.TilesUpTo.tiles {text front back : List Char} {ts : List Lexeme}
    (h : Layout.initial.TilesUpTo text (.ofText text) front back ts) : Tiles front back ts := by
  obtain ⟨rfl, htiled, hpasses⟩ := h
  have hplace := htiled.place_of_mem
  refine ⟨htiled, fun t ht ↦ ?_, ?_, htiled.pairwise, fun i hi hi' ↦ ?_⟩
  · obtain ⟨j, hj, htake, -⟩ := hplace t ht
    rw [hj]
    exact (Nat.zero_add j).symm ▸ htake
  · refine htiled.pairwise.imp_of_mem fun {t u} ht _ hle ↦ ?_
    obtain ⟨j, -, -, hpos⟩ := hplace t ht
    omega
  · have hpassed := hpasses i hi ((Nat.zero_add i).symm ▸ hi')
    have hnewline : (front ++ back)[i]? = some '\n' := by
      rw [List.getElem?_append_left (List.getElem?_eq_some_iff.1 hi).1, hi]
    rw [show (Scanner.ofText (front ++ back)).offset + i = i from Nat.zero_add i] at hpassed
    refine hpassed.imp id fun ⟨hbefore, _⟩ t ht ↦ ?_
    rw [Position.ofOffset_line, Position.ofOffset_line]
    rcases Nat.lt_or_ge t.offset i with hlt | hge
    · have := hbefore t ht hlt
      omega
    · -- a newline that belongs to no token stands before those that do not stand before it
      obtain ⟨j, -, -, hpos⟩ := hplace t ht
      have hlt := (hi' t ht).resolve_right (by omega)
      have := newlinesBefore_lt hnewline hlt
      omega

/-! ### Sources -/

/-- The fault of a source is told of an offset in it. The tokens delivered before it stand before
that and tile what lies there. -/
theorem exists_tiles_of_error {source : String} {d : Diagnostic} (h : tokenize source = .error d) :
    ∃ (ts : List Lexeme) (k : Nat),
      deliveries source.toList (.ofText source.toList) .initial = ts.map .ok ++ [.error d] ∧
      (∃ f : LexicalFault, d = f.diagnostic source.toList k) ∧ k < source.toList.length ∧
      Tiles (source.toList.take k) (source.toList.drop k) (ts.filter (·.isWritten)) ∧
      ∀ t ∈ ts, t.offset ≤ k := by
  obtain ⟨ts, _, front, back, hdeliveries, ⟨rfl, rfl⟩ | ⟨hback, f, rfl⟩, htiles, hoffsets⟩ :=
    exists_tilesUpTo source.toList (.ofText source.toList) .initial rfl
  · rw [List.append_nil, deliveries_eq_iff] at hdeliveries
    exact absurd ((tokenize_eq_ok_iff.2 ⟨ts, hdeliveries, rfl⟩).symm.trans h) (by simp)
  · obtain rfl := Except.error.inj ((tokenize_eq_error_iff.2 ⟨ts, hdeliveries⟩).symm.trans h)
    have hsource : source.toList = front ++ back := htiles.split
    have hstart : (Scanner.ofText source.toList).offset + front.length = front.length :=
      Nat.zero_add _
    rw [hstart] at hdeliveries hoffsets ⊢
    refine ⟨ts, front.length, hdeliveries, ⟨f, rfl⟩, ?_, ?_, hoffsets⟩
    · rw [hsource, List.length_append]
      exact Nat.lt_add_of_pos_right (List.length_pos_iff.2 hback)
    · rw [hsource, List.take_left, List.drop_left]
      exact htiles.tiles

/-- The tokens of a source that are delivered without a fault stand in it or at its end, and tile
it. -/
theorem tiles_of_deliveries {text : List Char} {ts : List Lexeme}
    (h : deliveries text (.ofText text) .initial = ts.map .ok) :
    Tiles text [] (ts.filter (·.isWritten)) ∧ ∀ t ∈ ts, t.offset ≤ text.length := by
  obtain ⟨us, _, front, back, hdeliveries, ⟨rfl, rfl⟩ | ⟨-, f, rfl⟩, htiles, hoffsets⟩ :=
    exists_tilesUpTo text (.ofText text) .initial rfl
  · rw [List.append_nil, h] at hdeliveries
    obtain rfl := (List.map_inj_right fun _ _ ↦ Except.ok.inj).1 hdeliveries
    have htext : text = front := htiles.split.trans (List.append_nil front)
    subst htext
    exact ⟨htiles.tiles, fun t ht ↦ Nat.zero_add text.length ▸ hoffsets t ht⟩
  · -- a fault is no token
    have hmem : (.error (f.diagnostic text _) : Delivery) ∈ ts.map Except.ok :=
      h ▸ hdeliveries ▸ List.mem_append_right _ List.mem_cons_self
    exact absurd hmem (by simp)

/-- The written tokens of a source tile it, each at its offset, whose position it tells. Where a
source cannot be cut into tokens, the fault is told of an offset in it, and the tokens delivered
before the fault tile what lies before that. -/
theorem tokenize_tiles :
    (∀ source tokens, tokenize source = .ok tokens → ∃ ts : List Lexeme,
      tokens = ts.map (fun t ↦ ⟨t.kind, t.text, .ofOffset source.toList t.offset⟩) ++
        [⟨.eof, "", .ofEnd source.toList⟩] ∧
      Tiles source.toList [] (ts.filter (·.isWritten))) ∧
    ∀ source d, tokenize source = .error d → ∃ (ts : List Lexeme) (k : Nat),
      (TokenStream.ofText source.toList).drain.1 = ts.map .ok ++ [.error d] ∧
      d.phase = .lexical ∧ d.position = some (.ofOffset source.toList k) ∧
      k < source.toList.length ∧
      Tiles (source.toList.take k) (source.toList.drop k) (ts.filter (·.isWritten)) := by
  refine ⟨fun source tokens h ↦ ?_, fun source d h ↦ ?_⟩
  · obtain ⟨ts, _, front, back, hdeliveries, ⟨rfl, rfl⟩ | ⟨-, f, rfl⟩, htiles, -⟩ :=
      exists_tilesUpTo source.toList (.ofText source.toList) .initial rfl
    · rw [List.append_nil, deliveries_eq_iff] at hdeliveries
      have htokens := (tokenize_eq_ok_iff.2 ⟨ts, hdeliveries, rfl⟩).symm.trans h
      have hsource : source.toList = front := htiles.split.trans (List.append_nil front)
      exact ⟨ts, (Except.ok.inj htokens).symm, hsource ▸ htiles.tiles⟩
    · exact absurd ((tokenize_eq_error_iff.2 ⟨ts, hdeliveries⟩).symm.trans h) (by simp)
  · obtain ⟨ts, k, hdeliveries, ⟨f, rfl⟩, hk, htiles, -⟩ := exists_tiles_of_error h
    exact ⟨ts, k, hdeliveries, rfl, rfl, hk, htiles⟩

/-- A call on two lines with a comment is tiled by its tokens, and what lies before a character that
begins no token by those before it. -/
theorem tokenize_tiles_call :
    let call := "f(1, # one\n  2)\n\n"
    let tokens : List Token := [⟨.name, "f", ⟨1, 1⟩⟩, ⟨.openParen, "(", ⟨1, 2⟩⟩,
      ⟨.literal .int, "1", ⟨1, 3⟩⟩, ⟨.comma, ",", ⟨1, 4⟩⟩, ⟨.literal .int, "2", ⟨2, 3⟩⟩,
      ⟨.closeParen, ")", ⟨2, 4⟩⟩, ⟨.newline, "\n\n", ⟨2, 5⟩⟩, ⟨.eof, "", ⟨4, 1⟩⟩]
    let fault : Diagnostic := ⟨.lexical, "carácter ilegal '$'", some ⟨1, 5⟩, []⟩
    (tokenize call = .ok tokens ∧ ∃ ts : List Lexeme,
      tokens = ts.map (fun t ↦ ⟨t.kind, t.text, .ofOffset call.toList t.offset⟩) ++
        [⟨.eof, "", .ofEnd call.toList⟩] ∧
      Tiles call.toList [] (ts.filter (·.isWritten))) ∧
    tokenize "x = $\n" = .error fault ∧ ∃ (ts : List Lexeme) (k : Nat),
      some ⟨1, 5⟩ = some (Position.ofOffset "x = $\n".toList k) ∧
      Tiles ("x = $\n".toList.take k) ("x = $\n".toList.drop k) (ts.filter (·.isWritten)) := by
  intro call tokens fault
  have hcall : tokenize "f(1, # one\n  2)\n\n" = .ok tokens := by rfl
  have hfault : tokenize "x = $\n" = .error fault := by rfl
  refine ⟨⟨hcall, tokenize_tiles.1 _ _ hcall⟩, hfault, ?_⟩
  obtain ⟨ts, k, -, -, hposition, -, htiles⟩ := tokenize_tiles.2 _ _ hfault
  exact ⟨ts, k, hposition, htiles⟩

end Sangria
