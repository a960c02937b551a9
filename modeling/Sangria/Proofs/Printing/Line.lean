import Mathlib.Data.List.Forall2
import Sangria.Proofs.Printing.Word
import Sangria.Proofs.Token.Deliveries

/-!
# Lines to be read again

A line is words at a depth. It is written with four blanks for each level, one blank between words
where punctuation needs none, and a line end (`Line.text`). Lines that go down by one level at most
are read again as their words with the layout that their depths announce (`announced`), if the
parentheses in each of them match (`exists_deliveries_lines`).
-/

namespace Sangria

/-! ### How lines are written -/

/-- What stands between two words: nothing before punctuation, behind an opening parenthesis, and
between a name and what opens behind it. -/
def Word.between (a b : Word) : List Char :=
  if b.kind ∈ [Kind.closeParen, .comma, .colon] ∨ a.kind = .openParen ∨
      (a.kind = .name ∧ b.kind = .openParen) then []
  else [' ']

/-- The text of words behind a word. -/
def Word.behind (a : Word) : List Word → List Char
  | [] => []
  | b :: rest => a.between b ++ (b.text ++ b.behind rest)

/-- The text of words in a row. -/
def spaced : List Word → List Char
  | [] => []
  | a :: rest => a.text ++ a.behind rest

/-- Words at a depth. -/
structure Line where
  /-- How many blocks the line stands in. -/
  depth : Nat
  /-- What stands in it. -/
  words : List Word

/-- How a line is written. -/
def Line.text (l : Line) : List Char :=
  List.replicate (4 * l.depth) ' ' ++ (spaced l.words ++ ['\n'])

/-- How lines are written. -/
def linesText (lines : List Line) : List Char :=
  lines.flatMap Line.text

/-! ### What is read again -/

/-- The end of a line. -/
def Word.newline : Word := ⟨.newline, ['\n']⟩

/-- The start of a block. -/
def Word.indent : Word := ⟨.indent, []⟩

/-- The end of a block. -/
def Word.dedent : Word := ⟨.dedent, []⟩

/-- What a line announces about blocks, behind a line of a depth. -/
def announcement (depth next : Nat) : List Word :=
  if depth < next then [.indent] else List.replicate (depth - next) .dedent

/-- The words of lines behind a line of a depth, with the layout that they announce. At the end all
blocks end. -/
def announced (depth : Nat) : List Line → List Word
  | [] => List.replicate depth .dedent
  | l :: rest => announcement depth l.depth ++ (l.words ++ .newline :: announced l.depth rest)

/-- How many parentheses are open behind words. -/
def openAfter (depth : Nat) (ws : List Word) : Nat :=
  ws.foldl (fun depth w ↦ Layout.depthAfter depth w.kind) depth

/-- A line can be read again: it has words, they can be written, and their parentheses match. -/
structure Line.Legible (l : Line) : Prop where
  /-- There are words. -/
  ne_nil : l.words ≠ []
  /-- They can be written. -/
  words : ∀ w ∈ l.words, w.Legible
  /-- Their parentheses match. -/
  matched : openAfter 0 l.words = 0

/-- Lines go down by at most one level, behind a line of a depth. -/
def Stepwise (depth : Nat) : List Line → Prop
  | [] => True
  | l :: rest => l.depth ≤ depth + 1 ∧ Stepwise l.depth rest

/-- The widths of the blocks that are open at a depth. -/
def levelsAt : Nat → List Nat
  | 0 => []
  | d + 1 => 4 * (d + 1) :: levelsAt d

/-- What is delivered from a place on are words, and then what is delivered from another. -/
def DeliversWords (text : List Char) (s : Scanner) (l : Layout) (ws : List Word) (s' : Scanner)
    (l' : Layout) : Prop :=
  ∃ ts, List.Forall₂ Lexeme.Writes ts ws ∧
    deliveries text s l = ts.map .ok ++ deliveries text s' l'

namespace DeliversWords

variable {text : List Char} {s s' s'' : Scanner} {l l' l'' : Layout} {ws ws' : List Word}

theorem refl (text : List Char) (s : Scanner) (l : Layout) : DeliversWords text s l [] s l :=
  ⟨[], .nil, rfl⟩

theorem trans (h : DeliversWords text s l ws s' l') (h' : DeliversWords text s' l' ws' s'' l'') :
    DeliversWords text s l (ws ++ ws') s'' l'' := by
  obtain ⟨ts, hts, heq⟩ := h
  obtain ⟨ts', hts', heq'⟩ := h'
  refine ⟨ts ++ ts', List.rel_append hts hts', ?_⟩
  rw [heq, heq', List.map_append, List.append_assoc]

/-- One lexeme with what it announces. -/
theorem of_take {t : Lexeme} {ts : List Lexeme} (hs : s.scan = .lexeme t s')
    (ht : l.take text t = (ts, .ok l')) (hws : List.Forall₂ Lexeme.Writes ts ws) :
    DeliversWords text s l ws s' l' :=
  ⟨ts, hws, deliveries_of_lexeme hs ht⟩

end DeliversWords

/-! ### Words in a line -/

theorem gap_append {blanks text : List Char} (hblanks : ∀ c ∈ blanks, c = ' ') {c : Char}
    (hc : c ∉ [' ', '\t', '\r', '#', '\n']) : gap (blanks ++ c :: text) = blanks.length := by
  have hblank : isBlank c = false := by simp_all [isBlank]
  have htake : (blanks ++ c :: text).takeWhile isBlank = blanks := by
    rw [List.takeWhile_append_of_pos fun d hd ↦ by rw [hblanks d hd]; rfl,
      List.takeWhile_cons_of_neg (by simp [hblank]), List.append_nil]
  have hcomment : commentLength (c :: text) = 0 := by
    unfold commentLength
    split
    · rename_i heq
      exact absurd (by simp [(List.cons.inj heq).1]) hc
    · rfl
  rw [gap, htake, List.drop_left, hcomment]
  rfl

/-- A word is found behind blanks. -/
theorem scan_word {w : Word} (hw : w.Legible) {blanks rest : List Char}
    (hblanks : ∀ c ∈ blanks, c = ' ') (hrest : ∀ c ∈ rest.head?, w.kind.endsBefore c = true)
    (offset line : Nat) :
    Scanner.scan ⟨blanks ++ (w.text ++ rest), offset, line⟩ =
      .lexeme ⟨w.kind, String.ofList w.text, line, offset + blanks.length⟩
        ⟨rest, offset + blanks.length + w.text.length, line⟩ := by
  have hmunch := hw.munch_append hrest
  obtain ⟨c, text, htext, hc⟩ := hw.exists_cons
  have hgap : gap (blanks ++ (w.text ++ rest)) = blanks.length := by
    rw [htext]
    exact gap_append hblanks hc
  have hcons : w.text ++ rest = c :: (text ++ rest) := by
    rw [htext]
    rfl
  simp only [Scanner.scan, Scanner.skip, hgap, List.drop_left]
  rw [hcons] at hmunch ⊢
  simp only [hmunch, if_neg hw.ne_newline]
  rw [← hcons, List.take_left, List.drop_left]
  rfl

/-- The end of a line is found at its place. -/
theorem scan_newline {rest : List Char} (hrest : '\n' ∉ rest.head?) (offset line : Nat) :
    Scanner.scan ⟨'\n' :: rest, offset, line⟩ =
      .lexeme ⟨.newline, "\n", line, offset⟩ ⟨rest, offset + 1, line + 1⟩ := by
  have hmunch : munch ('\n' :: rest) = some (.newline, 1) := by
    have htake : ('\n' :: rest).takeWhile (· = '\n') = ['\n'] := by
      cases rest with
      | nil => rfl
      | cons c rest =>
        have hc : c ≠ '\n' := fun h ↦ hrest (by rw [h]; rfl)
        simp [hc]
    rw [munch, if_pos rfl, htake]
    rfl
  have hgap : gap ('\n' :: rest) = 0 := by
    simp [gap, isBlank, commentLength]
  simp only [Scanner.scan, Scanner.skip, hgap, List.drop_zero, hmunch]
  rfl

/-- What stands behind a word in its line ends it. -/
theorem endsBefore_head_behind {a : Word} {ws : List Word} (hws : ∀ w ∈ ws, w.Legible)
    (rest : List Char) : ∀ c ∈ (a.behind ws ++ '\n' :: rest).head?, a.kind.endsBefore c = true := by
  intro c hc
  cases ws with
  | nil =>
    obtain rfl : '\n' = c := Option.some.inj hc
    exact endsBefore_of_mem_wordEnds _ (by decide)
  | cons b ws =>
    obtain ⟨hb, -⟩ := List.forall_mem_cons.1 hws
    obtain ⟨d, text, htext, -⟩ := hb.exists_cons
    rw [Word.behind, Word.between] at hc
    split at hc
    · rename_i hnone
      obtain rfl : d = c := by simpa [htext] using hc
      rcases hnone with hk | hk | ⟨ha, hk⟩
      · obtain ⟨d', hd', hends⟩ := hb.head_of_punctuation hk
        obtain rfl : d = d' := by simpa [htext] using hd'
        exact endsBefore_of_mem_wordEnds _ hends
      · rw [hk]
        rfl
      · have hopen := hb.head_of_openParen hk
        obtain rfl : d = '(' := by simpa [htext] using hopen
        rw [ha]
        rfl
    · obtain rfl : ' ' = c := Option.some.inj hc
      exact endsBefore_of_mem_wordEnds _ (by decide)

/-- A word inside a line is delivered as it is. -/
theorem deliversWords_word (text : List Char) {w : Word} (hw : w.Legible) {blanks rest : List Char}
    (hblanks : ∀ c ∈ blanks, c = ' ') (hrest : ∀ c ∈ rest.head?, w.kind.endsBefore c = true)
    (offset line : Nat) (levels : List Nat) (depth : Nat) :
    DeliversWords text ⟨blanks ++ (w.text ++ rest), offset, line⟩ ⟨levels, depth, false⟩ [w]
      ⟨rest, offset + blanks.length + w.text.length, line⟩
      ⟨levels, Layout.depthAfter depth w.kind, false⟩ := by
  have hwrites : Lexeme.Writes ⟨w.kind, String.ofList w.text, line, offset + blanks.length⟩ w :=
    ⟨rfl, rfl⟩
  refine .of_take (scan_word hw hblanks hrest offset line) ?_ (.cons hwrites .nil)
  rw [Layout.take, if_neg hw.ne_newline]
  rfl

/-- The words behind a word are delivered as they are. -/
theorem deliversWords_behind (text : List Char) {ws : List Word} (hws : ∀ w ∈ ws, w.Legible)
    (a : Word) (rest : List Char) (offset line : Nat) (levels : List Nat) (depth : Nat) :
    DeliversWords text ⟨a.behind ws ++ '\n' :: rest, offset, line⟩ ⟨levels, depth, false⟩ ws
      ⟨'\n' :: rest, offset + (a.behind ws).length, line⟩ ⟨levels, openAfter depth ws, false⟩ := by
  induction ws generalizing a offset depth with
  | nil => exact .refl _ _ _
  | cons b ws ih =>
    obtain ⟨hb, hws'⟩ := List.forall_mem_cons.1 hws
    have hblanks : ∀ c ∈ a.between b, c = ' ' := by
      intro c hc
      rw [Word.between] at hc
      split at hc
      · exact absurd hc List.not_mem_nil
      · exact List.mem_singleton.1 hc
    have hfirst := deliversWords_word text hb hblanks (endsBefore_head_behind hws' rest) offset line
      levels depth
    have hlater := ih hws' b (offset + (a.between b).length + b.text.length)
      (Layout.depthAfter depth b.kind)
    rw [Word.behind, List.append_assoc, List.append_assoc, List.length_append, List.length_append,
      ← Nat.add_assoc, ← Nat.add_assoc]
    exact hfirst.trans hlater

/-! ### Layout -/

theorem length_levelsAt (d : Nat) : (levelsAt d).length = d := by
  induction d with
  | zero => rfl
  | succ d ih => rw [levelsAt, List.length_cons, ih]

theorem level_levelsAt (d : Nat) : Layout.level (levelsAt d) = 4 * d := by
  cases d <;> rfl

/-- The blocks deeper than a line are closed, and those around it stay open. -/
theorem span_levelsAt {n d : Nat} (h : n ≤ d) :
    (levelsAt d).takeWhile (4 * n < ·) = (levelsAt d).take (d - n) ∧
      (levelsAt d).dropWhile (4 * n < ·) = levelsAt n := by
  induction d with
  | zero =>
    obtain rfl : n = 0 := by omega
    exact ⟨rfl, rfl⟩
  | succ d ih =>
    rcases Nat.eq_or_lt_of_le h with rfl | hlt
    · rw [Nat.sub_self, levelsAt, List.takeWhile_cons_of_neg (by simp),
        List.dropWhile_cons_of_neg (by simp)]
      exact ⟨rfl, rfl⟩
    · obtain ⟨htake, hdrop⟩ := ih (by omega)
      have hdeep : decide (4 * n < 4 * (d + 1)) = true := by
        rw [decide_eq_true_eq]
        omega
      rw [levelsAt, List.takeWhile_cons_of_pos (p := (4 * n < ·)) hdeep,
        List.dropWhile_cons_of_pos (p := (4 * n < ·)) hdeep, htake, hdrop,
        show d + 1 - n = (d - n) + 1 by omega, List.take_succ_cons]
      exact ⟨rfl, rfl⟩

theorem forall₂_writes_replicate {t : Lexeme} {w : Word} (h : t.Writes w) (n : Nat) :
    List.Forall₂ Lexeme.Writes (List.replicate n t) (List.replicate n w) := by
  induction n with
  | zero => exact .nil
  | succ n ih => exact .cons h ih

/-- The start of a line announces what its depth asks for. -/
theorem startLine_levelsAt {n d : Nat} (h : n ≤ d + 1) (t : Lexeme) :
    ∃ ts, Layout.startLine (levelsAt d) (4 * n) t = (ts, some (levelsAt n)) ∧
      List.Forall₂ Lexeme.Writes ts (announcement d n) := by
  rw [Layout.startLine, announcement, level_levelsAt]
  by_cases hlt : d < n
  · obtain rfl : n = d + 1 := by omega
    rw [if_pos (by omega), if_pos hlt]
    exact ⟨_, rfl, .cons ⟨rfl, rfl⟩ .nil⟩
  · obtain ⟨htake, hdrop⟩ := span_levelsAt (Nat.le_of_not_lt hlt)
    rw [if_neg (by omega), if_neg hlt]
    simp only [htake, hdrop, level_levelsAt, if_pos]
    refine ⟨_, rfl, ?_⟩
    have hlength : ((levelsAt d).take (d - n)).length = d - n := by
      rw [List.length_take, length_levelsAt]
      omega
    rw [List.map_const', hlength]
    exact forall₂_writes_replicate ⟨rfl, rfl⟩ (d - n)

/-- The width of blanks at the start of a line. -/
theorem indentWidth_blanks {front : List Char} (hfront : ∀ c ∈ front.getLast?, c = '\n') (n : Nat)
    (rest : List Char) :
    indentWidth (front ++ (List.replicate n ' ' ++ rest))
      ((front.length + n : Nat) : Int) = n := by
  have hbefore : before (front ++ (List.replicate n ' ' ++ rest)) ((front.length + n : Nat) : Int) =
      front ++ List.replicate n ' ' := by
    rw [before, fromStart, if_neg (by omega), Int.toNat_natCast, ← List.append_assoc]
    exact List.take_left' (by simp)
  have hline : (front ++ List.replicate n ' ').reverse.takeWhile (· ≠ '\n') =
      List.replicate n ' ' := by
    rw [List.reverse_append, List.reverse_replicate,
      List.takeWhile_append_of_pos fun c hc ↦ by rw [List.eq_of_mem_replicate hc]; rfl]
    rcases List.eq_nil_or_concat front with rfl | ⟨init, c, rfl⟩
    · simp
    · obtain rfl : c = '\n' := hfront c (by simp)
      simp
  rw [indentWidth, lineBefore_eq, hbefore, hline, List.map_replicate,
    List.sum_replicate_nat, if_neg (by decide), Nat.mul_one]

/-! ### Lines -/

/-- A line is delivered as its words, behind what its depth announces, and its end. -/
theorem deliversWords_line {l : Line} (hl : l.Legible) {d : Nat} (hd : l.depth ≤ d + 1)
    {text front rest : List Char} (htext : text = front ++ (l.text ++ rest))
    (hfront : ∀ c ∈ front.getLast?, c = '\n') (hrest : '\n' ∉ rest.head?) (line : Nat) :
    DeliversWords text ⟨l.text ++ rest, front.length, line⟩ ⟨levelsAt d, 0, true⟩
      (announcement d l.depth ++ (l.words ++ [.newline]))
      ⟨rest, (front ++ l.text).length, line + 1⟩ ⟨levelsAt l.depth, 0, true⟩ := by
  obtain ⟨depth, ws⟩ := l
  obtain ⟨hne, hws, hmatched⟩ := hl
  obtain ⟨a, ws, rfl⟩ := List.exists_cons_of_ne_nil hne
  obtain ⟨ha, hws'⟩ := List.forall_mem_cons.1 hws
  have hblanks : ∀ c ∈ List.replicate (4 * depth) ' ', c = ' ' :=
    fun c hc ↦ List.eq_of_mem_replicate hc
  have hcut : Line.text ⟨depth, a :: ws⟩ ++ rest =
      List.replicate (4 * depth) ' ' ++ (a.text ++ (a.behind ws ++ '\n' :: rest)) := by
    simp [Line.text, spaced]
  -- the first word announces the layout
  have hfirst : DeliversWords text ⟨Line.text ⟨depth, a :: ws⟩ ++ rest, front.length, line⟩
      ⟨levelsAt d, 0, true⟩ (announcement d depth ++ [a])
      ⟨a.behind ws ++ '\n' :: rest, front.length + 4 * depth + a.text.length, line⟩
      ⟨levelsAt depth, Layout.depthAfter 0 a.kind, false⟩ := by
    have hscan := scan_word ha hblanks (endsBefore_head_behind hws' rest) front.length line
    rw [← hcut, List.length_replicate] at hscan
    have hwidth : indentWidth text ((front.length + 4 * depth : Nat) : Int) = 4 * depth := by
      rw [htext, hcut]
      exact indentWidth_blanks hfront _ _
    obtain ⟨ts, hstart, hts⟩ := startLine_levelsAt hd
      ⟨a.kind, String.ofList a.text, line, front.length + 4 * depth⟩
    have hwrites : Lexeme.Writes
        ⟨a.kind, String.ofList a.text, line, front.length + 4 * depth⟩ a := ⟨rfl, rfl⟩
    refine .of_take hscan ?_ (List.rel_append hts (.cons hwrites .nil))
    rw [Layout.take, if_neg ha.ne_newline, if_pos rfl, hwidth, hstart]
  have hbehind := deliversWords_behind text hws' a rest
    (front.length + 4 * depth + a.text.length) line (levelsAt depth) (Layout.depthAfter 0 a.kind)
  rw [show openAfter (Layout.depthAfter 0 a.kind) ws = 0 from hmatched] at hbehind
  have hend : DeliversWords text
      ⟨'\n' :: rest, front.length + 4 * depth + a.text.length + (a.behind ws).length, line⟩
      ⟨levelsAt depth, 0, false⟩ [.newline] ⟨rest, (front ++ Line.text ⟨depth, a :: ws⟩).length,
        line + 1⟩ ⟨levelsAt depth, 0, true⟩ := by
    have hlength : (front ++ Line.text ⟨depth, a :: ws⟩).length =
        front.length + 4 * depth + a.text.length + (a.behind ws).length + 1 := by
      simp [Line.text, spaced]
      omega
    rw [hlength]
    exact .of_take (scan_newline hrest _ line) rfl (.cons ⟨rfl, rfl⟩ .nil)
  have hall := (hfirst.trans hbehind).trans hend
  simpa only [List.append_assoc, List.singleton_append, List.cons_append, List.nil_append]
    using hall

/-- No line begins with a line end. -/
theorem head_linesText {lines : List Line} (h : ∀ l ∈ lines, l.Legible) :
    '\n' ∉ (linesText lines).head? := by
  cases lines with
  | nil => exact fun hmem ↦ absurd hmem (by simp [linesText])
  | cons l lines =>
    obtain ⟨hl, -⟩ := List.forall_mem_cons.1 h
    obtain ⟨a, ws, hwords⟩ := List.exists_cons_of_ne_nil hl.ne_nil
    have ha : a ∈ l.words := by
      rw [hwords]
      exact List.mem_cons_self
    obtain ⟨c, text, htext, hc⟩ := (hl.words a ha).exists_cons
    rw [linesText, List.flatMap_cons, Line.text, hwords, spaced, htext]
    cases 4 * l.depth with
    | zero =>
      intro hmem
      obtain rfl : c = '\n' := by simpa using hmem
      exact hc (by decide)
    | succ n => exact fun hmem ↦ absurd hmem (by simp [List.replicate_succ])

/-- Lines are delivered as their words, with the layout that their depths announce. -/
theorem exists_deliveries_lines {lines : List Line} {d : Nat} (hlines : ∀ l ∈ lines, l.Legible)
    (hstep : Stepwise d lines) {text front : List Char} (htext : text = front ++ linesText lines)
    (hfront : ∀ c ∈ front.getLast?, c = '\n') (line : Nat) :
    ∃ ts, List.Forall₂ Lexeme.Writes ts (announced d lines) ∧
      deliveries text ⟨linesText lines, front.length, line⟩ ⟨levelsAt d, 0, true⟩ = ts.map .ok := by
  induction lines generalizing d front line with
  | nil =>
    have hscan : Scanner.scan ⟨[], front.length, line⟩ =
        .finished ⟨[], front.length + 1, line⟩ := rfl
    refine ⟨_, ?_, deliveries_of_finished hscan⟩
    rw [Layout.close, if_pos rfl, List.nil_append, List.map_const', length_levelsAt]
    exact forall₂_writes_replicate ⟨rfl, rfl⟩ d
  | cons l lines ih =>
    obtain ⟨hl, hrest⟩ := List.forall_mem_cons.1 hlines
    have hcut : linesText (l :: lines) = l.text ++ linesText lines := List.flatMap_cons
    have hlast : ∀ c ∈ (front ++ l.text).getLast?, c = '\n' := by
      intro c hc
      rw [Line.text, ← List.append_assoc, ← List.append_assoc, List.getLast?_concat] at hc
      exact (Option.some.inj hc).symm
    obtain ⟨ts, hts, hline⟩ := deliversWords_line hl hstep.1 (hcut ▸ htext) hfront
      (head_linesText hrest) line
    obtain ⟨ts', hts', hlater⟩ := ih hrest hstep.2
      (show text = (front ++ l.text) ++ linesText lines by rw [htext, hcut, List.append_assoc])
      hlast (line + 1)
    refine ⟨ts ++ ts', ?_, ?_⟩
    · have hall := List.rel_append hts hts'
      simpa only [announced, List.append_assoc, List.singleton_append] using hall
    · rw [hcut, hline, hlater, List.map_append]

end Sangria
