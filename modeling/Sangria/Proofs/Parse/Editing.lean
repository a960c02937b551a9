import Sangria.Proofs.Parse.Joining
import Sangria.Proofs.Token.Editing

/-!
# Layout that does not matter

A source that is parsed is parsed as the same program, but for where its statements stand, with
padding in its lines, lines of padding between its lines, a line end behind it, and lines that are
broken inside parentheses (`parse_layout`).

A source is parsed through its lexemes and what the layout makes of them (`exists_runs_of_parse`,
`parse_of_runs`). Each edit leaves the lexemes in front of it as they are, moves those behind it,
and puts in line ends that come to nothing, or one where the source ends (`parse_of_moved`). So
there is one thing to show for each edit: where the lexemes behind it stand, and that those among
them that begin a line are as far from its start as before (`Layout.Fits`).

The line that is put in between two lines ends the first one, and the newline that ended it comes to
nothing behind the padding (`parse_lined`). Inside parentheses every line end comes to nothing, and
no line begins before one that is delivered, so how far anything stands from the start of the broken
line does not matter (`parse_broken`).
-/
namespace Sangria

section Runs

variable {text text' : List Char} {f : Position → Position} {program : Block}
  {ts ts₁ ts₂ us us₁ us₂ : List Lexeme} {l l₁ l₂ : Layout}

theorem Derives.of_same (h : Derives text (.phrase .statements) (.block program) ts)
    (hsame : List.Forall₂ Lexeme.Same ts us) :
    Derives text (.phrase .statements) (.block program) us := by
  obtain ⟨m, hm, rfl⟩ := h.relocated (hsame.imp fun _ _ ht ↦ ht.alike text)
  rwa [Block.relocated_id] at hm

/-- What is parsed is made of lexemes of which the layout makes what derives it. -/
theorem exists_runs_of_parse (h : parse (String.ofList text) = .ok program) :
    ∃ ts us l, Lexes text 0 ts ∧ Layout.initial.Runs text ts us l ∧
      Derives text (.phrase .statements) (.block program) (us ++ l.close 1 text.length) := by
  obtain ⟨ts, hts, hderives, -⟩ := exists_statements_of_parse h
  rw [String.toList_ofList] at hts hderives
  obtain ⟨lexemes, us, l, hlexes, hruns, hsame⟩ := hts.exists_runs
  exact ⟨lexemes, us, l, hlexes, hruns, hderives.of_same hsame⟩

/-- Lexemes of which the layout makes what derives a program are parsed as that. -/
theorem parse_of_runs (hlexes : Lexes text 0 ts) (hruns : Layout.initial.Runs text ts us l)
    (hderives : Derives text (.phrase .statements) (.block program)
      (us ++ l.close 1 text.length)) : parse (String.ofList text) = .ok program := by
  obtain ⟨ts', hts', hsame⟩ := hruns.exists_delivers hlexes 1
  refine parse_of_delivers (?_ : Delivers _ _ _ ts') ?_
  · rw [String.toList_ofList]
    exact hts'
  · rw [String.toList_ofList]
    exact hderives.of_same hsame

/-- A source whose lexemes are those of another, some of them moved, with line ends put in that come
to nothing, is parsed as the program of the other, moved alike. -/
theorem parse_of_moved (m : Nat) (ends ends' : List Lexeme) (hlexes : Lexes text' 0 ts)
    (hts : ts = ts₁ ++ (ends ++ (ts₂.map (·.placed (· + m)) ++ ends')))
    (hruns : Layout.initial.Runs text ts₁ us₁ l₁) (hruns' : l₁.Runs text ts₂ us₂ l₂)
    (hderives : Derives text (.phrase .statements) (.block program)
      (us₁ ++ us₂ ++ l₂.close 1 text.length))
    (hends : ∀ t ∈ ends ++ ends', t.kind = .newline) (hskips : ends = [] ∨ l₁.Skips)
    (hfits : Layout.initial.Fits f text text' id ts₁) (hfits' : l₁.Fits f text text' (· + m) ts₂) :
    parse (String.ofList text') = .ok (Block.relocated f program) := by
  subst hts
  rw [List.forall_mem_append] at hends
  obtain ⟨vs₁, hfront, halike₁⟩ := hruns.exists_placed hfits
  obtain ⟨vs₂, hback, halike₂⟩ := hruns'.exists_placed hfits'
  obtain ⟨vs₃, l₃, hlast, hkinds⟩ := l₂.exists_runs_newlines text' hends.2
  have hbetween : l₁.Runs text' ends [] l₁ := by
    rcases hskips with rfl | hl
    · exact .nil l₁
    · exact .of_skips hl hends.1
  rw [show ts₁.map (·.placed id) = ts₁ from List.map_id' ts₁] at hfront
  have halike₃ : List.Forall₂ (Lexeme.Alike f text text') (l₂.close 1 text.length)
      (vs₃ ++ l₃.close 1 text'.length) := by
    refine forall₂_alike_of_kinds ?_ ?_
    · rw [List.map_append, Layout.map_kind_close, Layout.map_kind_close, hkinds]
    · rw [Layout.map_kind_close]
      exact l₂.isWord_of_mem_closeKinds
  obtain ⟨m, hm, rfl⟩ :=
    hderives.relocated (List.rel_append (List.rel_append halike₁ halike₂) halike₃)
  refine parse_of_runs hlexes (hfront.append (hbetween.append (hback.append hlast))) ?_
  simpa only [List.nil_append, List.append_assoc] using hm

end Runs

/-! ### Edits -/

section Edits

variable {front back pad blanks : List Char} {program : Block}

/-- Padding in front of a line end, or at the end of a source, changes nothing. -/
theorem parse_padded (front back : List Char) (hpad : isPadding pad = true)
    (hback : ∀ c ∈ back.head?, c = '\n') (h : parse (String.ofList (front ++ back)) = .ok program) :
    parse (String.ofList (front ++ (pad ++ back))) = .ok program := by
  obtain ⟨ts, us, l, hlexes, hruns, hderives⟩ := exists_runs_of_parse h
  obtain ⟨ts₁, ts₂, rfl, hcut⟩ := hlexes.exists_cut (Nat.zero_add _) (.inl hback)
  obtain ⟨us₁, us₂, l₁, hruns₁, hruns₂, rfl⟩ := hruns.exists_of_append
  have hlexes' := hcut.resumed pad back _ hpad hback (hcut.behind.shift pad.length)
  have hfits : l₁.Fits id (front ++ back) (front ++ (pad ++ back)) (· + pad.length) ts₂ := by
    rcases back with - | ⟨c, rest⟩
    · cases hcut.behind
      exact Layout.fits_of_line (List.forall_mem_nil _)
    · obtain rfl := hback c rfl
      obtain ⟨ts₃, rfl, hlater⟩ := hcut.behind.exists_of_newline
      rw [← List.append_assoc front pad]
      refine Layout.fits_back List.length_append.symm ?_ (fun p _ ↦ ?_) rest
      · exact List.forall_mem_cons.2 ⟨fun hkind ↦ absurd rfl hkind,
          fun t ht _ ↦ (hlater.place_of_mem t ht).1⟩
      · rw [List.count_append, List.count_eq_zero.2 (newline_not_mem_of_padding hpad)]
        rfl
  rw [← Block.relocated_id program]
  exact parse_of_moved pad.length [] [] hlexes' (by simp) hruns₁ hruns₂ hderives
    (List.forall_mem_nil _) (.inl rfl)
    (Layout.fits_front (fun t ht ↦ (hcut.before t ht).le) (fun _ _ _ ↦ rfl) _ _) hfits

/-- Padding as a line of its own behind a source moves nothing. -/
theorem parse_lined_end {f : Position → Position} (hpad : isPadding pad = true)
    (hf : ∀ k : Nat, f (.ofOffset front k) = .ofOffset front k)
    (h : parse (String.ofList front) = .ok program) :
    parse (String.ofList (front ++ '\n' :: pad)) = .ok (Block.relocated f program) := by
  obtain ⟨ts, us, l, hlexes, hruns, hderives⟩ := exists_runs_of_parse h
  rw [← List.append_nil front] at hlexes
  obtain ⟨ts, rest, rfl, hcut⟩ := hlexes.exists_cut (Nat.zero_add _) (.inl fun _ hc ↦ by simp at hc)
  cases hcut.behind
  rw [List.append_nil] at hruns
  -- the newline ends the line that the end would have ended
  have hlast : Lexes ('\n' :: (pad ++ [])) front.length [.newline front.length] :=
    .newline (.padding hpad (fun _ hc ↦ by simp at hc) .nil)
  have hlexes' := hcut.resumed [] _ _ rfl (fun _ hc ↦ by simpa using hc.symm) hlast
  rw [List.nil_append, List.append_nil] at hlexes'
  have hfits : Layout.initial.Fits f (front ++ []) (front ++ '\n' :: pad) id ts :=
    Layout.fits_front (fun t ht ↦ (hcut.before t ht).le) (fun t _ _ ↦ hf t.offset) _ _
  rw [List.append_nil] at hfits
  rw [← List.append_nil us] at hderives
  exact parse_of_moved 0 [] [.newline front.length] hlexes' rfl hruns (.nil l) hderives
    (List.forall_mem_singleton.2 rfl) (.inl rfl) hfits (Layout.fits_of_line (List.forall_mem_nil _))

/-- Padding as a line of its own between lines of a source moves those behind it down. -/
theorem parse_lined (hpad : isPadding pad = true)
    (h : parse (String.ofList (front ++ '\n' :: back)) = .ok program) :
    parse (String.ofList (front ++ '\n' :: (pad ++ '\n' :: back))) =
      .ok (Block.relocated (.lowered (front.count '\n' + 1)) program) := by
  have hnewline (rest : List Char) : ∀ c ∈ ('\n' :: rest).head?, c = '\n' :=
    fun _ hc ↦ (Option.some.inj hc).symm
  obtain ⟨ts, us, l, hlexes, hruns, hderives⟩ := exists_runs_of_parse h
  obtain ⟨ts₁, ts₂, rfl, hcut⟩ := hlexes.exists_cut (Nat.zero_add _) (.inl (hnewline back))
  obtain ⟨ts₃, rfl, hlater⟩ := hcut.behind.exists_of_newline
  -- the newline ends the line, and the one that ended it comes to nothing
  have hmoved : Lexes ('\n' :: (pad ++ '\n' :: back)) front.length
      (.newline front.length :: .newline (front.length + 1 + pad.length) ::
        ts₃.map (·.placed (· + (pad.length + 1)))) := by
    refine .newline (.padding hpad (hnewline back) (.newline ?_))
    rw [Nat.add_assoc _ pad.length]
    exact hlater.shift (pad.length + 1)
  have hlexes' := hcut.resumed [] _ _ rfl (hnewline _) hmoved
  rw [List.nil_append, List.append_cons ts₁] at hlexes'
  rw [List.append_cons ts₁] at hruns
  obtain ⟨us₁, us₂, l₁, hruns₁, hruns₂, rfl⟩ := hruns.exists_of_append
  have hfits₁ : Layout.initial.Fits (.lowered (front.count '\n' + 1)) (front ++ '\n' :: back)
      (front ++ '\n' :: (pad ++ '\n' :: back)) id
      (ts₁ ++ [.newline front.length]) := by
    refine Layout.fits_front ?_ (fun t _ _ ↦ if_pos (Position.line_le _ _)) _ _
    rw [List.forall_mem_append, List.forall_mem_singleton]
    exact ⟨fun t ht ↦ (hcut.before t ht).le, Nat.le_refl _⟩
  have hfits₂ : l₁.Fits (.lowered (front.count '\n' + 1)) (front ++ '\n' :: back)
      (front ++ '\n' :: (pad ++ '\n' :: back)) (· + (pad.length + 1)) ts₃ := by
    rw [show front ++ '\n' :: (pad ++ '\n' :: back) =
      (front ++ '\n' :: pad) ++ '\n' :: back by simp]
    refine Layout.fits_back (by simp) (fun t ht _ ↦ (hlater.place_of_mem t ht).1) ?_ back
    intro p hp
    have hpad' : pad.count '\n' = 0 := List.count_eq_zero.2 (newline_not_mem_of_padding hpad)
    rw [Position.lowered, if_neg (by rw [Position.down]; dsimp only; omega)]
    simp only [Position.down, List.count_append, List.count_cons_self, Position.mk.injEq, and_true]
    omega
  have hskips : l₁.Skips := hruns₁.skips (by rfl)
  exact parse_of_moved (pad.length + 1) [.newline (front.length + 1 + pad.length)] [] hlexes'
    (by simp) hruns₁ hruns₂ hderives (List.forall_mem_singleton.2 rfl) (.inr hskips) hfits₁ hfits₂

/-- Padding as the first line of a source moves all others down. -/
theorem parse_lined_start (hpad : isPadding pad = true)
    (h : parse (String.ofList back) = .ok program) :
    parse (String.ofList (pad ++ '\n' :: back)) = .ok (Block.relocated (.lowered 0) program) := by
  obtain ⟨ts, us, l, hlexes, hruns, hderives⟩ := exists_runs_of_parse h
  have hlexes' : Lexes (pad ++ '\n' :: back) 0
      (.newline (0 + pad.length) :: ts.map (·.placed (· + (pad.length + 1)))) :=
    .padding hpad (fun _ hc ↦ by simpa using hc.symm) <| .newline <| by
      simpa only [Nat.zero_add] using hlexes.shift (pad.length + 1)
  have hfits : Layout.initial.Fits (.lowered 0) back (pad ++ '\n' :: back) (· + (pad.length + 1))
      ts := by
    refine Layout.fits_of_line fun t _ _ ↦ ?_
    have hline := Position.line_pos back t.offset
    rw [Position.ofOffset_back, lineBefore_back,
      List.count_eq_zero.2 (newline_not_mem_of_padding hpad), Position.lowered, if_neg (by omega)]
    exact ⟨rfl, rfl⟩
  exact parse_of_moved (pad.length + 1) [.newline (0 + pad.length)] [] hlexes' (by simp) (.nil _)
    hruns hderives (List.forall_mem_singleton.2 rfl) (.inr (.inr rfl))
    (Layout.fits_of_line (List.forall_mem_nil _)) hfits

/-- A line that is broken before a token inside parentheses goes on behind any blanks. -/
theorem parse_broken {text : List Char} {before after : List Lexeme} {t : Lexeme}
    (h : parse (String.ofList text) = .ok program)
    (hdelivers : Delivers text (.ofText text) .initial (before ++ t :: after))
    (hopen : 0 < openParens 0 (before.map (·.kind))) (hblanks : ∀ c ∈ blanks, isBlank c = true) :
    parse (String.ofList (text.take t.offset ++ '\n' :: (blanks ++ text.drop t.offset))) =
      .ok (Block.relocated (.broken (.ofOffset text t.offset) blanks.length) program) := by
  have hinside : '\n' ∉ blanks := fun hmem ↦ absurd (hblanks _ hmem) (by decide)
  obtain ⟨ts, hts, hderives, hbalance, -⟩ := exists_statements_of_parse h
  rw [String.toList_ofList] at hts hderives
  obtain rfl := hts.unique hdelivers
  obtain ⟨lexemes, us, l', hlexes, hruns, hsame⟩ := hts.exists_runs
  obtain ⟨before', t', after', hus, hbefore, ht⟩ := exists_of_same hsame
  have hdepth : l'.depth = 0 := by
    rw [← map_kind_of_same hsame, List.map_append, openParens_append, Layout.map_kind_close,
      openParens_closeKinds] at hbalance
    exact hruns.openParens_eq.symm.trans hbalance
  rw [← map_kind_of_same hbefore] at hopen
  obtain ⟨ts₁, ts₂, us₁, us₂, l₁, rfl, rfl, hruns₁, hruns₂, hkind, hdeep, hfresh⟩ :=
    hruns.exists_inside (fun _ ↦ rfl) hdepth hus hopen
  have hmem : t' ∈ ts₁ ++ t' :: ts₂ := List.mem_append_right _ List.mem_cons_self
  have hword := (hlexes.kind_of_mem t' hmem).resolve_left hkind
  rw [← (ht.2 (ht.1 ▸ hword)).2]
  -- the text is cut in front of the token
  have hlength : t'.offset < 0 + text.length := (hlexes.place_of_mem t' hmem).2
  obtain ⟨front, back, rfl, hplace⟩ :
      ∃ front back, text = front ++ back ∧ t'.offset = front.length := by
    refine ⟨_, _, (List.take_append_drop t'.offset text).symm, ?_⟩
    rw [List.length_take]
    omega
  have hcut := hlexes.cut_at (Nat.zero_add _) hplace
  have hmoved : Lexes ('\n' :: (blanks ++ back)) front.length
      (.newline front.length :: (t' :: ts₂).map (·.placed (· + (blanks.length + 1)))) := by
    refine .newline (.blanks hblanks ?_)
    rw [Nat.add_assoc, Nat.add_comm 1]
    exact hcut.behind.shift (blanks.length + 1)
  have hlexes' := hcut.resumed [] _ _ rfl (fun _ hc ↦ by simpa using hc.symm) hmoved
  rw [hplace, List.take_left, List.drop_left, Position.ofOffset_front (Nat.le_refl _)]
  have hfits : Layout.initial.Fits (.broken (.ofEnd front) blanks.length) (front ++ back)
      (front ++ '\n' :: (blanks ++ back)) id ts₁ :=
    Layout.fits_front (fun t ht ↦ (hcut.before t ht).le)
      (fun t ht _ ↦ Position.broken_of_lt (hcut.before t ht) _) _ _
  exact parse_of_moved (blanks.length + 1) [.newline front.length] [] hlexes' (by simp) hruns₁
    hruns₂ (hderives.of_same hsame) (List.forall_mem_singleton.2 rfl) (.inr (.inl hdeep)) hfits
    (Layout.fits_broken hinside hcut.behind hfresh)

end Edits

/-! ### Edits of the lines of a source -/

section Lines

variable {source : String} {program : Block}

theorem append_newline_append (front back : String) :
    front ++ "\n" ++ back = String.ofList (front.toList ++ '\n' :: back.toList) := by
  rw [← String.toList_inj, String.toList_ofList, String.toList_append, String.toList_append,
    List.append_assoc]
  rfl

/-- Lines without line ends have as many as they are, less one. -/
theorem count_intercalate {lines : List String} (hne : lines ≠ [])
    (h : ∀ s ∈ lines, '\n' ∉ s.toList) :
    ("\n".intercalate lines).toList.count '\n' + 1 = lines.length := by
  induction lines with
  | nil => exact absurd rfl hne
  | cons s lines ih =>
    rw [List.forall_mem_cons] at h
    by_cases hlines : lines = []
    · rw [hlines, String.intercalate_singleton, List.count_eq_zero.2 h.1]
      rfl
    · rw [String.intercalate_cons_of_ne_nil hlines, append_newline_append, String.toList_ofList,
        List.count_append, List.count_eq_zero.2 h.1, List.count_cons_self, List.length_cons,
        ← ih hlines h.2]
      omega

/-- Padding in front of line ends and at the end of a source changes nothing. -/
theorem parse_padded_lines {lines : List (String × String)}
    (hpad : ∀ e ∈ lines, isPadding e.2.toList = true) (front : String)
    (h : parse (front ++ "\n".intercalate (lines.map (·.1))) = .ok program) :
    parse (front ++ "\n".intercalate (lines.map fun e ↦ e.1 ++ e.2)) = .ok program := by
  induction lines generalizing front with
  | nil => exact h
  | cons e lines ih =>
    rw [List.forall_mem_cons] at hpad
    rw [List.map_cons] at h ⊢
    by_cases hlines : lines = []
    · subst hlines
      rw [List.map_nil, String.intercalate_singleton] at h ⊢
      have hend := parse_padded (front ++ e.1).toList [] hpad.1 (fun _ hc ↦ by simp at hc)
        (by rwa [List.append_nil, String.ofList_toList])
      rwa [List.append_nil, ← String.toList_append, String.ofList_toList,
        String.append_assoc] at hend
    · rw [String.intercalate_cons_of_ne_nil (by simpa using hlines)] at h ⊢
      have hline := parse_padded (front ++ e.1).toList
        ('\n' :: ("\n".intercalate (lines.map (·.1))).toList) hpad.1
        (fun _ hc ↦ (Option.some.inj hc).symm)
        (by simpa only [← append_newline_append, String.append_assoc] using h)
      rw [← List.append_assoc, ← String.toList_append, ← append_newline_append] at hline
      have hrest := ih hpad.2 (front ++ e.1 ++ e.2 ++ "\n") hline
      simpa only [String.append_assoc] using hrest

/-- Padding as a line of its own moves those behind it down. -/
theorem parse_lined_lines {above below : List String} {line : String}
    (habove : ∀ s ∈ above, '\n' ∉ s.toList) (hpad : isPadding line.toList = true)
    (h : parse ("\n".intercalate (above ++ below)) = .ok program) :
    parse ("\n".intercalate (above ++ line :: below)) =
      .ok (Block.relocated (.lowered above.length) program) := by
  by_cases hfirst : above = []
  · subst hfirst
    by_cases hlast : below = []
    · -- a source without characters has no program
      subst hlast
      exact absurd h (by rw [show parse ("\n".intercalate ([] ++ [])) = .error _ from rfl]; simp)
    · rw [List.nil_append] at h ⊢
      rw [String.intercalate_cons_of_ne_nil hlast, append_newline_append]
      exact parse_lined_start hpad (by rwa [String.ofList_toList])
  · rw [String.intercalate_append_of_ne_nil hfirst (List.cons_ne_nil _ _), append_newline_append,
      ← count_intercalate hfirst habove]
    by_cases hlast : below = []
    · subst hlast
      rw [List.append_nil] at h
      exact parse_lined_end (by rwa [String.intercalate_singleton])
        (fun k ↦ if_pos (Position.line_le _ k)) (by rwa [String.ofList_toList])
    · rw [String.intercalate_append_of_ne_nil hfirst hlast, append_newline_append] at h
      rw [String.intercalate_cons_of_ne_nil hlast, append_newline_append, String.toList_ofList]
      exact parse_lined hpad h

end Lines

/-- Layout does not matter. A source that is parsed is parsed as the same program

* with padding in front of line ends and at its end: any of its lines, or several at once, may have
  blanks and a comment behind them;
* with a line of padding anywhere between its lines, before them or behind them, where statements
  below that line stand one line further down, in the same column;
* with a line end behind it;
* with a line end and blanks before a token inside parentheses, where what stands behind it goes on
  in the next line. -/
theorem parse_layout {source : String} {program : Block} (h : parse source = .ok program) :
    (∀ lines : List (String × String), "\n".intercalate (lines.map (·.1)) = source →
      (∀ e ∈ lines, isPadding e.2.toList = true) →
        parse ("\n".intercalate (lines.map fun e ↦ e.1 ++ e.2)) = .ok program) ∧
    (∀ (above below : List String) (line : String), "\n".intercalate (above ++ below) = source →
      (∀ s ∈ above, '\n' ∉ s.toList) → isPadding line.toList = true →
        parse ("\n".intercalate (above ++ line :: below)) =
          .ok (Block.relocated (.lowered above.length) program)) ∧
    parse (source ++ "\n") = .ok program ∧
    ∀ (before after : List Lexeme) (t : Lexeme) (blanks : List Char),
      deliveries source.toList (.ofText source.toList) .initial = (before ++ t :: after).map .ok →
      0 < openParens 0 (before.map (·.kind)) → (∀ c ∈ blanks, c = ' ' ∨ c = '\t') →
        parse (String.ofList (source.toList.take t.offset ++
          '\n' :: (blanks ++ source.toList.drop t.offset))) =
            .ok (Block.relocated (.broken (.ofOffset source.toList t.offset) blanks.length)
              program) := by
  refine ⟨fun lines hlines hpad ↦ ?_, fun above below line hlines habove hpad ↦ ?_, ?_,
    fun before after t blanks hdeliveries hopen hblanks ↦ ?_⟩
  · have hfront (text : String) : "" ++ text = text := String.empty_append
    rw [← hfront ("\n".intercalate _)]
    exact parse_padded_lines hpad "" (by rwa [hfront, hlines])
  · exact parse_lined_lines habove hpad (hlines ▸ h)
  · have htext : parse (String.ofList source.toList) = .ok program := by rwa [String.ofList_toList]
    have hend : parse (String.ofList (source.toList ++ ['\n'])) =
        .ok (Block.relocated id program) := parse_lined_end rfl (fun _ ↦ rfl) htext
    rwa [Block.relocated_id, String.ofList_append, String.ofList_toList] at hend
  · have htext : parse (String.ofList source.toList) = .ok program := by rwa [String.ofList_toList]
    refine parse_broken htext (deliveries_eq_iff.1 hdeliveries) hopen fun c hc ↦ ?_
    rcases hblanks c hc with rfl | rfl <;> rfl

/-- A block behind a call: padding in both lines, a comment between them, a line end behind them,
and a line that is broken behind the parenthesis. -/
theorem parse_layout_block :
    parse "if f(a):\n  b" =
        .ok [⟨⟨1, 1⟩, .branch (.call "f" [.name "a"]) [⟨⟨2, 3⟩, .eval (.name "b")⟩] none⟩] ∧
      parse "if f(a):\t# c\r\n  b " =
        .ok [⟨⟨1, 1⟩, .branch (.call "f" [.name "a"]) [⟨⟨2, 3⟩, .eval (.name "b")⟩] none⟩] ∧
      parse "if f(a):\n    # c\n  b" =
        .ok [⟨⟨1, 1⟩, .branch (.call "f" [.name "a"]) [⟨⟨3, 3⟩, .eval (.name "b")⟩] none⟩] ∧
      parse "if f(a):\n  b\n" =
        .ok [⟨⟨1, 1⟩, .branch (.call "f" [.name "a"]) [⟨⟨2, 3⟩, .eval (.name "b")⟩] none⟩] ∧
      parse "if f(\n a):\n  b" =
        .ok [⟨⟨1, 1⟩, .branch (.call "f" [.name "a"]) [⟨⟨3, 3⟩, .eval (.name "b")⟩] none⟩] := by
  have h : parse "if f(a):\n  b" =
    .ok [⟨⟨1, 1⟩, .branch (.call "f" [.name "a"]) [⟨⟨2, 3⟩, .eval (.name "b")⟩] none⟩] := rfl
  obtain ⟨hpad, hline, hend, hbreak⟩ := parse_layout h
  refine ⟨h, ?_, ?_, hend, ?_⟩
  · exact hpad [("if f(a):", "\t# c\r"), ("  b", " ")] rfl (by decide)
  · exact hline ["if f(a):"] ["  b"] "    # c" rfl (by decide) (by decide)
  · exact hbreak [⟨.ifWord, "if", 1, 0⟩, ⟨.name, "f", 1, 3⟩, ⟨.openParen, "(", 1, 4⟩]
      [⟨.closeParen, ")", 1, 6⟩, ⟨.colon, ":", 1, 7⟩, ⟨.newline, "\n", 1, 8⟩,
        ⟨.indent, "", 2, 11⟩, ⟨.name, "b", 2, 11⟩, ⟨.newline, "", 2, 12⟩, ⟨.dedent, "", 2, 12⟩]
      ⟨.name, "a", 1, 5⟩ [' '] rfl (by decide) (List.forall_mem_singleton.2 (.inl rfl))

end Sangria
