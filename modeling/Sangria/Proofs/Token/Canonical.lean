import Sangria.Proofs.Printing.Line
import Sangria.Proofs.Token.Editing

/-!
# Tokens written down again

Tokens can be written in one way that depends on their kinds and texts only: a line for each logical
line, with four blanks for each block that it stands in, and one blank between tokens
(`canonical`). That text has the same tokens again, whatever the layout of the source was that they
were cut from (`tokenize_canonical`).

What a source delivers and what its tokens written down deliver is compared lexeme by lexeme. The
layouts on both sides have as many open blocks, of any nested widths on one side and of multiples of
four on the other (`levelsAt`), and as many open parentheses. So a line end that comes to nothing on
one side is not written on the other, but for one: where parentheses are left open, the last line
end is only announced, and it is announced again.
-/

namespace Sangria

/-! ### How tokens are written -/

/-- A lexeme as it is written. -/
def Lexeme.word (t : Lexeme) : Word :=
  ⟨t.kind, t.text.toList⟩

/-- A token as it is written. -/
def Token.word (t : Token) : Word :=
  ⟨t.kind, t.lexeme.toList⟩

/-- The text of tokens, with so many blocks open before them, in a new line or not: a line for each
logical line, four blanks before it for each open block, and one blank between tokens. -/
def canonical (depth : Nat) (fresh : Bool) : List Word → List Char
  | [] => []
  | w :: ws =>
    match w.kind with
    | .indent => canonical (depth + 1) fresh ws
    | .dedent => canonical (depth - 1) fresh ws
    | .newline => '\n' :: canonical depth true ws
    | .eof => canonical depth fresh ws
    | _ => (if fresh then List.replicate (4 * depth) ' ' else [' ']) ++
        (w.text ++ canonical depth false ws)

/-- What a token says: its kind, and its text if it is no line end. -/
def Token.said (t : Token) : Kind × String :=
  (t.kind, if t.kind = .newline then "" else t.lexeme)

/-- What a lexeme says: its kind, and its text if it stands inside a line. -/
def Lexeme.said (t : Lexeme) : Kind × String :=
  (t.kind, if t.kind.isWord then t.text else "")

section Canonical

variable {depth n : Nat} {fresh : Bool} {w : Word} {ws : List Word}

theorem canonical_word (hw : w.kind.isWord = true) (depth : Nat) (fresh : Bool) (ws : List Word) :
    canonical depth fresh (w :: ws) =
      (if fresh then List.replicate (4 * depth) ' ' else [' ']) ++
        (w.text ++ canonical depth false ws) := by
  rw [canonical]
  split
  case h_5 => rfl
  all_goals
    rename_i hk
    exact absurd hw (by simp [hk, Kind.isWord])

theorem canonical_newline (hw : w.kind = .newline) (depth : Nat) (fresh : Bool) (ws : List Word) :
    canonical depth fresh (w :: ws) = '\n' :: canonical depth true ws := by
  rw [canonical, hw]

theorem announcement_opened (depth : Nat) : announcement depth (depth + 1) = [.indent] :=
  if_pos (Nat.lt_succ_self depth)

theorem announcement_closed (n depth : Nat) :
    announcement (n + depth) depth = List.replicate n .dedent := by
  rw [announcement, if_neg (by omega), Nat.add_sub_cancel]

theorem canonical_dedents (depth n : Nat) (fresh : Bool) (ws : List Word) :
    canonical depth fresh (List.replicate n .dedent ++ ws) = canonical (depth - n) fresh ws := by
  induction n generalizing depth with
  | zero => rfl
  | succ n ih =>
    show canonical (depth - 1) fresh (List.replicate n .dedent ++ ws) = _
    rw [ih, Nat.sub_sub, Nat.add_comm 1 n]

/-- What a line announces tells how many blocks are open in it. -/
theorem canonical_announcement (h : n ≤ depth + 1) (fresh : Bool) (ws : List Word) :
    canonical depth fresh (announcement depth n ++ ws) = canonical n fresh ws := by
  rw [announcement]
  split
  · obtain rfl : n = depth + 1 := by omega
    rfl
  · rw [canonical_dedents, show depth - (depth - n) = n by omega]

/-- The end of a source is not written. -/
theorem canonical_append_eof (depth : Nat) (fresh : Bool) (hw : w.kind = .eof) (ws : List Word) :
    canonical depth fresh (ws ++ [w]) = canonical depth fresh ws := by
  induction ws generalizing depth fresh with
  | nil =>
    show canonical depth fresh [w] = []
    rw [canonical, hw]
    rfl
  | cons v ws ih =>
    rw [List.cons_append, canonical, canonical]
    split
    · exact ih _ _
    · exact ih _ _
    · exact congrArg _ (ih _ _)
    · exact ih _ _
    · rw [ih]

/-- What is written behind a token does not make it longer. -/
theorem mem_separators_of_canonical (depth : Nat) (ws : List Word) :
    ∀ c ∈ (canonical depth false ws).head?, c ∈ separators := by
  induction ws generalizing depth with
  | nil => exact fun c hc ↦ absurd hc (by simp [canonical])
  | cons w ws ih =>
    intro c hc
    unfold canonical at hc
    split at hc
    · exact ih _ c hc
    · exact ih _ c hc
    · obtain rfl : '\n' = c := Option.some.inj hc
      decide
    · exact ih _ c hc
    · obtain rfl : ' ' = c := Option.some.inj hc
      decide

end Canonical

/-! ### What is delivered -/

section Deliveries

variable {text : List Char} {s next : Scanner} {l l' : Layout} {t : Lexeme}
  {tokens ts us : List Lexeme}

theorem map_said_of_same (h : List.Forall₂ Lexeme.Same ts us) :
    us.map Lexeme.said = ts.map Lexeme.said := by
  induction h with
  | nil => rfl
  | @cons t u ts us hsame _ ih =>
    obtain ⟨hkind, hword⟩ := hsame
    rw [List.map_cons, List.map_cons, ih, Lexeme.said, Lexeme.said, hkind]
    split
    · rename_i hw
      rw [(hword hw).1]
    · rfl

/-- Tokens that are only announced have no text, but for the end of the last line. -/
theorem Delivers.text_eq_of_announced (h : Delivers text s l ts) :
    ∀ t ∈ ts, t.kind.isWord = false → t.kind ≠ .newline → t.text = "" := by
  induction h with
  | finished hs =>
    intro u hu _ _
    rcases List.mem_append.1 hu with hu | hu
    · split at hu
      · exact absurd hu List.not_mem_nil
      · rw [List.mem_singleton.1 hu]
    · obtain ⟨w, -, rfl⟩ := List.mem_map.1 hu
      rfl
  | @lexeme s next l l' t tokens rest hs ht _ ih =>
    refine List.forall_mem_append.2 ⟨fun u hu hword hkind ↦ ?_, ih⟩
    rcases (Layout.takes_of_take ht).eq_or_unwritten u hu with rfl | rfl | rfl
    · -- a lexeme that is no line end stands inside a line
      exact absurd (hword.symm.trans (Scanner.isWord_of_scan hs hkind)) (by decide)
    · rfl
    · rfl

/-- What tokens say is what is delivered. -/
theorem Delivers.map_said (h : Delivers text s l ts) :
    (ts.map (TokenStream.token text)).map Token.said = ts.map Lexeme.said := by
  rw [List.map_map]
  refine List.map_congr_left fun t ht ↦ ?_
  show (t.kind, if t.kind = .newline then "" else t.text) =
    (t.kind, if t.kind.isWord then t.text else "")
  by_cases hkind : t.kind = .newline
  · simp [hkind, Kind.isWord]
  · by_cases hword : t.kind.isWord = true
    · rw [if_neg hkind, if_pos hword]
    · rw [if_neg hkind, if_neg hword,
        h.text_eq_of_announced t ht (Bool.eq_false_iff.2 hword) hkind]

/-- A token inside a line is one by itself as well. -/
theorem Scanner.munch_of_scan (h : s.scan = .lexeme t next) (hkind : t.kind ≠ .newline) :
    ∃ c word, t.text.toList = c :: word ∧ c ≠ '\n' ∧
      munch (c :: word) = some (t.kind, (c :: word).length) := by
  obtain ⟨c, rest, k, n, -, hmunch, rfl, -⟩ := exists_of_scan h
  obtain ⟨hpos, hle, hword⟩ := munch_length hmunch
  have hc : c ≠ '\n' := by
    intro hc
    rw [if_pos hc] at hword
    exact hkind hword
  obtain ⟨n, rfl⟩ := Nat.exists_eq_add_of_le' hpos
  have hlength : (rest.take n).length = n :=
    List.length_take_of_le (Nat.le_of_succ_le_succ hle)
  refine ⟨c, rest.take n, by rw [String.toList_ofList, List.take_succ_cons], hc, ?_⟩
  rw [List.length_cons, hlength]
  have hall : munch (c :: rest.take n ++ rest.drop n) = some (k, n + 1) := by
    rw [List.cons_append, List.take_append_drop]
    exact hmunch
  exact munch_of_append hc hall (by rw [List.length_cons, hlength])

/-- The first token of a line comes behind what the blocks before and behind it tell. -/
theorem Layout.Takes.announced_eq (h : l.Takes t tokens l') (hkind : t.kind ≠ .newline)
    (hfresh : l.fresh = true) :
    ∃ announced : List Lexeme, tokens = announced ++ [t] ∧
      announced.map Lexeme.word = announcement l.levels.length l'.levels.length ∧
      l'.levels.length ≤ l.levels.length + 1 ∧
      l'.depth = depthAfter l.depth t.kind := by
  cases h with
  | skipped hnewline => exact absurd hnewline hkind
  | ended hnewline => exact absurd hnewline hkind
  | inside _ hunder => exact absurd (hfresh.symm.trans hunder) (by decide)
  | opened _ _ width =>
    exact ⟨[unwritten .indent t], rfl, (announcement_opened _).symm, Nat.le_refl _, rfl⟩
  | @closed _ _ inner outer hlevels =>
    have hlength : l.levels.length = inner.length + outer.length := by
      rw [hlevels, List.length_append]
    refine ⟨_, rfl, ?_, by rw [hlength]; exact Nat.le_succ_of_le (Nat.le_add_left _ _), rfl⟩
    rw [hlength, announcement_closed, List.map_map]
    exact List.map_const'

/-- What is written alike says the same. -/
theorem map_said_of_map_word (h : ts.map Lexeme.word = us.map Lexeme.word) :
    ts.map Lexeme.said = us.map Lexeme.said := by
  have hsaid (t : Lexeme) : t.said =
      (t.word.kind, if t.word.kind.isWord then String.ofList t.word.text else "") := by
    rw [Lexeme.word, String.ofList_toList]
    rfl
  have hmap (ts : List Lexeme) : ts.map Lexeme.said = (ts.map Lexeme.word).map fun w ↦
      (w.kind, if w.kind.isWord then String.ofList w.text else "") := by
    rw [List.map_map]
    exact List.map_congr_left fun t _ ↦ hsaid t
  rw [hmap, hmap, h]

theorem map_word_of_writes {ws : List Word} (h : List.Forall₂ Lexeme.Writes ts ws) :
    ts.map Lexeme.word = ws := by
  induction h with
  | nil => rfl
  | @cons t w ts ws hw _ ih =>
    obtain ⟨hkind, htext⟩ := hw
    rw [List.map_cons, ih, Lexeme.word, hkind, htext, String.toList_ofList]

/-- A token is written behind blanks, and a layout with as many open blocks takes it there as it was
taken. -/
theorem Layout.Takes.exists_pad (h : l.Takes t tokens l') (hword : t.kind.isWord = true)
    (ws : List Word) {text' front : List Char}
    (htext : text' =
      front ++ canonical l.levels.length l.fresh (tokens.map Lexeme.word ++ ws))
    (hfront : l.fresh = true → ∀ c ∈ front.getLast?, c = '\n') :
    ∃ (pad : List Char) (tokens' : List Lexeme), (∀ d ∈ pad, isBlank d = true) ∧
      canonical l.levels.length l.fresh (tokens.map Lexeme.word ++ ws) =
        pad ++ (t.text.toList ++ canonical l'.levels.length false ws) ∧
      take text' ⟨levelsAt l.levels.length, l.depth, l.fresh⟩
          ⟨t.kind, t.text, 1, front.length + pad.length⟩ =
        (tokens', .ok ⟨levelsAt l'.levels.length, l'.depth, false⟩) ∧
      tokens'.map Lexeme.said = tokens.map Lexeme.said := by
  have hkind : t.kind ≠ .newline := fun hnewline ↦ by simp [hnewline, Kind.isWord] at hword
  rcases hfresh : l.fresh with - | -
  · cases h with
    | skipped hnewline => exact absurd hnewline hkind
    | ended hnewline => exact absurd hnewline hkind
    | inside =>
      exact ⟨[' '], _, List.forall_mem_singleton.2 rfl, canonical_word hword _ _ ws,
        take_inside hkind rfl, rfl⟩
    | opened _ htrue => exact absurd (hfresh.symm.trans htrue) (by decide)
    | closed _ htrue => exact absurd (hfresh.symm.trans htrue) (by decide)
  · obtain ⟨announced, rfl, hannounced, hle, hdepth⟩ := h.announced_eq hkind hfresh
    have hcanonical : canonical l.levels.length true ((announced ++ [t]).map Lexeme.word ++ ws) =
        List.replicate (4 * l'.levels.length) ' ' ++
          (t.text.toList ++ canonical l'.levels.length false ws) := by
      rw [List.map_append, List.append_assoc, hannounced, canonical_announcement hle]
      exact canonical_word hword _ _ ws
    rw [hfresh, hcanonical] at htext
    have hwidth : indentWidth text' ((front.length + 4 * l'.levels.length : Nat) : Int) =
        4 * l'.levels.length := by
      rw [htext]
      exact indentWidth_blanks (hfront hfresh) _ _
    obtain ⟨announced', hstart, hwrites⟩ := startLine_levelsAt hle
      ⟨t.kind, t.text, 1, front.length + 4 * l'.levels.length⟩
    refine ⟨_, announced' ++ [⟨t.kind, t.text, 1, front.length + 4 * l'.levels.length⟩],
      fun d hd ↦ by rw [List.eq_of_mem_replicate hd]; rfl, hcanonical, ?_, ?_⟩
    · rw [List.length_replicate, take, if_neg hkind, if_pos rfl, hwidth, hstart, hdepth]
    · rw [List.map_append, List.map_append,
        map_said_of_map_word ((map_word_of_writes hwrites).trans hannounced.symm)]
      rfl

/-- A token behind blanks is a lexeme where it is written, in front of other text. -/
theorem Lexes.blanks_word {c : Char} {word pad behind : List Char} {kind : Kind} {k : Nat}
    {lexemes : List Lexeme} (hpad : ∀ d ∈ pad, isBlank d = true) (hc : c ≠ '\n')
    (hmunch : munch (c :: word) = some (kind, (c :: word).length))
    (hbehind : ∀ d ∈ behind.head?, d ∈ separators)
    (h : Lexes behind (k + pad.length + (c :: word).length) lexemes) :
    Lexes (pad ++ (c :: word ++ behind)) k
      (⟨kind, String.ofList (c :: word), 1, k + pad.length⟩ :: lexemes) := by
  refine .blanks hpad ?_
  have hword := munch_append_separators hc hbehind hmunch
  have htake : (c :: word ++ behind).take (c :: word).length = c :: word := List.take_left
  have hlexes : Lexes (c :: (word ++ behind)) (k + pad.length)
      (⟨kind, String.ofList ((c :: (word ++ behind)).take (c :: word).length), 1,
        k + pad.length⟩ :: lexemes) := by
    refine .word hc hword ?_
    rwa [← List.cons_append, List.drop_left]
  rwa [← List.cons_append, htake] at hlexes

/-- What the end of a source says. -/
theorem Layout.map_said_close (l : Layout) (line offset : Nat) :
    (l.close line offset).map Lexeme.said =
      (if l.fresh then [] else [(.newline, "")]) ++
        List.replicate l.levels.length (.dedent, "") := by
  rw [close, List.map_append, List.map_map]
  refine congrArg₂ (· ++ ·) ?_ List.map_const'
  split <;> rfl

/-- The end of a source is written as the end of a line, if one is under way. -/
theorem Layout.canonical_close (l : Layout) (line offset : Nat) :
    canonical l.levels.length l.fresh ((l.close line offset).map Lexeme.word) =
      if l.fresh then [] else ['\n'] := by
  have hdedents : ((l.levels.map fun _ ↦ (⟨.dedent, "", line, offset⟩ : Lexeme)).map Lexeme.word) =
      List.replicate l.levels.length .dedent ++ [] := by
    rw [List.map_map, List.append_nil]
    exact List.map_const'
  rw [close, List.map_append, hdedents]
  split
  · exact canonical_dedents _ _ _ _
  · show '\n' :: canonical _ true (List.replicate l.levels.length .dedent ++ []) = _
    rw [canonical_dedents]
    rfl

theorem Lexeme.said_of_newline (h : t.kind = .newline) : t.said = (.newline, "") := by
  rw [said, h]
  rfl

end Deliveries

/-! ### What is made of what is written -/

/-- What a layout makes of the lexemes of a text that stands at an offset, and of the end, says
this. -/
def Layout.Makes (text : List Char) (l : Layout) (rest : List Char) (k : Nat)
    (said : List (Kind × String)) : Prop :=
  ∃ lexemes us l', Lexes rest k lexemes ∧ l.Runs text lexemes us l' ∧
    (us ++ l'.close 1 text.length).map Lexeme.said = said

namespace Layout.Makes

variable {text rest : List Char} {l l' : Layout} {k : Nat} {said : List (Kind × String)}

/-- The end of the line under way makes what the end of the text makes. -/
theorem close (text : List Char) (l : Layout) (k : Nat) :
    l.Makes text (if l.fresh then [] else ['\n']) k
      ((if l.fresh then [] else [(.newline, "")]) ++
        List.replicate l.levels.length (.dedent, "")) := by
  rcases hfresh : l.fresh with - | -
  · have hlexes : Lexes ['\n'] k [.newline k] := .newline .nil
    by_cases hskips : l.Skips
    · -- inside parentheses the line end comes to nothing, and is announced at the end
      refine ⟨_, [], l, hlexes, .cons (take_of_skips hskips rfl) (.nil l), ?_⟩
      rw [List.nil_append, map_said_close, hfresh]
    · refine ⟨_, _, _, hlexes, .cons (take_of_not_skips hskips rfl) (.nil _), ?_⟩
      rw [List.map_append, map_said_close]
      rfl
  · refine ⟨[], [], l, .nil, .nil l, ?_⟩
    rw [List.nil_append, map_said_close, hfresh]

/-- A line end outside parentheses ends the line under way. -/
theorem newline (hl : ¬l.Skips) (h : Makes text { l with fresh := true } rest (k + 1) said) :
    l.Makes text ('\n' :: rest) k ((.newline, "") :: said) := by
  obtain ⟨lexemes, us, l', hlexes, hruns, rfl⟩ := h
  exact ⟨_, _, l', .newline hlexes, .cons (take_of_not_skips hl rfl) hruns, rfl⟩

/-- A token behind blanks makes what is taken of it. -/
theorem word {c : Char} {word pad : List Char} {kind : Kind} {tokens : List Lexeme}
    (hpad : ∀ d ∈ pad, isBlank d = true) (hc : c ≠ '\n')
    (hmunch : munch (c :: word) = some (kind, (c :: word).length))
    (hrest : ∀ d ∈ rest.head?, d ∈ separators)
    (htake : l.take text ⟨kind, String.ofList (c :: word), 1, k + pad.length⟩ = (tokens, .ok l'))
    (h : l'.Makes text rest (k + pad.length + (c :: word).length) said) :
    l.Makes text (pad ++ (c :: word ++ rest)) k (tokens.map Lexeme.said ++ said) := by
  obtain ⟨lexemes, us, l'', hlexes, hruns, rfl⟩ := h
  refine ⟨_, _, l'', .blanks_word hpad hc hmunch hrest hlexes, .cons htake hruns, ?_⟩
  rw [List.append_assoc, List.map_append]

end Layout.Makes

section Deliveries

variable {text : List Char} {s next : Scanner} {l l' : Layout} {t : Lexeme}
  {tokens ts : List Lexeme}

/-- What a source still delivers is written as a text of which a layout with as many open blocks
makes the same. -/
theorem Delivers.makes_canonical (h : Delivers text s l ts) {text' front : List Char}
    (htext : text' = front ++ canonical l.levels.length l.fresh (ts.map Lexeme.word))
    (hfront : l.fresh = true → ∀ c ∈ front.getLast?, c = '\n') :
    Layout.Makes text' ⟨levelsAt l.levels.length, l.depth, l.fresh⟩
      (canonical l.levels.length l.fresh (ts.map Lexeme.word)) front.length
      (ts.map Lexeme.said) := by
  induction h generalizing front with
  | @finished s next l hs =>
    have hclose := Layout.Makes.close text' ⟨levelsAt l.levels.length, l.depth, l.fresh⟩
      front.length
    rw [length_levelsAt] at hclose
    rwa [l.canonical_close, l.map_said_close]
  | @lexeme s next l l' t tokens rest hs ht hlater ih =>
    by_cases hkind : t.kind = .newline
    · by_cases hskips : l.Skips
      · obtain ⟨rfl, hl'⟩ := Prod.mk.inj ((Layout.take_of_skips hskips hkind).symm.trans ht)
        obtain rfl := Except.ok.inj hl'
        exact ih htext hfront
      · obtain ⟨rfl, hl'⟩ := Prod.mk.inj ((Layout.take_of_not_skips hskips hkind).symm.trans ht)
        obtain rfl := Except.ok.inj hl'
        rw [List.singleton_append, List.map_cons, canonical_newline hkind] at htext ⊢
        rw [List.map_cons, t.said_of_newline hkind]
        have hmakes := @ih (front ++ ['\n']) (by rw [htext, List.append_assoc]; rfl)
          (fun _ c hc ↦ by simpa using hc.symm)
        rw [List.length_append] at hmakes
        exact .newline (l := ⟨_, l.depth, l.fresh⟩) hskips hmakes
    · have hword : t.kind.isWord = true := Scanner.isWord_of_scan hs hkind
      obtain ⟨c, word, htoken, hc, hmunch⟩ := Scanner.munch_of_scan hs hkind
      have htakes := Layout.takes_of_take ht
      rw [List.map_append] at htext ⊢
      obtain ⟨pad, tokens', hpad, hcanonical, htake, hsaid⟩ :=
        htakes.exists_pad hword (rest.map Lexeme.word) htext hfront
      rw [hcanonical, htoken] at htext ⊢
      have hfresh := htakes.fresh_eq hkind
      rw [hfresh] at ih
      have hmakes := @ih (front ++ (pad ++ c :: word))
        (by rw [htext, List.append_assoc, List.append_assoc]) (fun h ↦ absurd h (by decide))
      have hlength : (front ++ (pad ++ c :: word)).length =
          front.length + pad.length + (c :: word).length := by
        rw [List.length_append, List.length_append, Nat.add_assoc]
      rw [hlength] at hmakes
      rw [List.map_append, ← hsaid]
      refine .word hpad hc hmunch (mem_separators_of_canonical _ _) ?_ hmakes
      rwa [← htoken, String.ofList_toList]

end Deliveries

/-- Whenever a source has tokens, writing each logical line of them in one line, with four blanks
for each block that is open there and one blank between tokens, gives a source that has tokens as
well, of the same kinds and texts, but for the texts of line ends. -/
theorem tokenize_canonical {source : String} {tokens : List Token}
    (h : tokenize source = .ok tokens) :
    ∃ tokens', tokenize (String.ofList (canonical 0 true (tokens.map Token.word))) = .ok tokens' ∧
      tokens'.map Token.said = tokens.map Token.said := by
  obtain ⟨ts, hts, rfl⟩ := tokenize_eq_ok_iff.1 h
  have hwords : (ts.map (TokenStream.token source.toList) ++
      [TokenStream.eofToken source.toList]).map Token.word =
        ts.map Lexeme.word ++ [(TokenStream.eofToken source.toList).word] := by
    rw [List.map_append, List.map_map]
    rfl
  rw [hwords, canonical_append_eof 0 true rfl]
  have hmakes : Layout.initial.Makes (canonical 0 true (ts.map Lexeme.word))
      (canonical 0 true (ts.map Lexeme.word)) 0 (ts.map Lexeme.said) :=
    hts.makes_canonical (List.nil_append _).symm fun _ c hc ↦ absurd hc (by simp)
  obtain ⟨lexemes, us, l', hlexes, hruns, hsaid⟩ := hmakes
  obtain ⟨ts', hts', hsame⟩ := hruns.exists_delivers hlexes 1
  refine ⟨_, tokenize_eq_ok_iff.2 ⟨ts', by rwa [String.toList_ofList], rfl⟩, ?_⟩
  rw [String.toList_ofList, List.map_append, List.map_append, hts.map_said,
    hts'.map_said, map_said_of_same hsame, hsaid]
  rfl

/-- A block of one blank and a line over three, which are written again with four blanks and in one
line, and parentheses that are left open. -/
theorem tokenize_canonical_block :
    ∃ tokens tokens', tokenize "if a :\n f(1,\n2)\n\ng((" = .ok tokens ∧
      String.ofList (canonical 0 true (tokens.map Token.word)) =
        "if a :\n    f ( 1 , 2 )\ng ( (\n" ∧
      tokenize "if a :\n    f ( 1 , 2 )\ng ( (\n" = .ok tokens' ∧
      tokens'.map Token.said = tokens.map Token.said := by
  obtain ⟨tokens, htokens, htext⟩ : ∃ tokens,
      tokenize "if a :\n f(1,\n2)\n\ng((" = .ok tokens ∧
      String.ofList (canonical 0 true (tokens.map Token.word)) =
        "if a :\n    f ( 1 , 2 )\ng ( (\n" := ⟨_, rfl, rfl⟩
  obtain ⟨tokens', htokens', hsaid⟩ := tokenize_canonical htokens
  exact ⟨tokens, tokens', htokens, htext, htext ▸ htokens', hsaid⟩

end Sangria
