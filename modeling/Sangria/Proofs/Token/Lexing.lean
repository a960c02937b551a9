import Mathlib.Data.List.TakeWhile
import Sangria.Proofs.Token.Joining

/-!
# The lexemes of a text

What a source delivers depends on two things: which lexemes stand where in its text, and what its
layout makes of them one after the other. Here they are taken apart.

* `Lexes` says which lexemes a text is made of, character by character: blanks and comments stand
  between them, and every newline is a line end of its own.
* `Layout.Runs` says what a layout makes of lexemes in a row.

A scanner takes all newlines in a row as one line end. To a layout it makes no difference, because
behind one line end it passes over all others (`Layout.skips_of_take`), so what is delivered is what
the layout makes of the lexemes and of the end (`Delivers.exists_runs`,
`Layout.Runs.exists_delivers`).
-/

namespace Sangria

/-! ### Gaps -/

section Gaps

variable {c : Char} {words rest : List Char}

theorem gap_blank (hc : isBlank c = true) (rest : List Char) :
    gap (c :: rest) = gap rest + 1 := by
  rw [gap, gap, List.takeWhile_cons_of_pos hc, List.length_cons, List.drop_succ_cons]
  omega

/-- A comment goes up to the end of its line. -/
theorem gap_comment (hwords : '\n' ∉ words) (hrest : ∀ c ∈ rest.head?, c = '\n') :
    gap ('#' :: (words ++ rest)) = words.length + 1 := by
  have htake : (words ++ rest).takeWhile (· ≠ '\n') = words := by
    rcases rest with - | ⟨c, rest⟩
    · rw [List.append_nil, takeWhile_of_no_newline hwords]
    · obtain rfl := hrest c rfl
      rw [takeWhile_append_newline, takeWhile_of_no_newline hwords]
  rw [gap, List.takeWhile_cons_of_neg (by decide), List.length_nil, List.drop_zero, commentLength,
    htake]
  omega

theorem gap_eq_zero (hc : isBlank c = false) (hcomment : c ≠ '#') (rest : List Char) :
    gap (c :: rest) = 0 := by
  rw [gap, List.takeWhile_cons_of_neg (by simp [hc]), List.length_nil, List.drop_zero,
    commentLength_eq_zero hcomment]

/-- A gap begins with a blank, or is one comment, or there is none. -/
theorem gap_cases (text : List Char) :
    (∃ c rest, text = c :: rest ∧ isBlank c = true ∧ gap text = gap rest + 1) ∨
    (∃ words rest, text = '#' :: (words ++ rest) ∧ '\n' ∉ words ∧
      (∀ c ∈ rest.head?, c = '\n') ∧ gap text = words.length + 1) ∨
    gap text = 0 := by
  rcases text with - | ⟨c, text⟩
  · exact .inr (.inr rfl)
  · by_cases hblank : isBlank c = true
    · exact .inl ⟨c, text, rfl, hblank, gap_blank hblank text⟩
    · by_cases hcomment : c = '#'
      · subst hcomment
        have hsplit : text = text.takeWhile (· ≠ '\n') ++ text.dropWhile (· ≠ '\n') :=
          List.takeWhile_append_dropWhile.symm
        have hwords : '\n' ∉ text.takeWhile (· ≠ '\n') := fun hmem ↦ by
          simpa using List.mem_takeWhile_imp hmem
        have hend : ∀ c ∈ (text.dropWhile (· ≠ '\n')).head?, c = '\n' := fun c hc ↦ by
          have hstop := List.head?_dropWhile_not (· ≠ '\n') text
          rw [show (text.dropWhile (· ≠ '\n')).head? = some c from hc] at hstop
          simpa using hstop
        have hgap := gap_comment hwords hend
        rw [← hsplit] at hgap
        exact .inr (.inl ⟨_, _, congrArg _ hsplit, hwords, hend, hgap⟩)
      · exact .inr (.inr (gap_eq_zero (Bool.eq_false_iff.2 hblank) hcomment text))

/-- Behind a gap stands neither a blank nor a comment. -/
theorem not_gap_of_drop_gap {text : List Char}
    (h : text.drop (gap text) = c :: rest) : isBlank c = false ∧ c ≠ '#' := by
  induction text with
  | nil => exact absurd h (by simp)
  | cons d text ih =>
    rcases gap_cases (d :: text) with
      ⟨_, _, heq, hblank, hgap⟩ | ⟨words, behind, heq, -, hend, hgap⟩ | hgap
    · obtain ⟨rfl, rfl⟩ := List.cons.inj heq
      rw [hgap, List.drop_succ_cons] at h
      exact ih h
    · -- a comment goes up to the end of its line
      rw [hgap, heq, List.drop_succ_cons, List.drop_left] at h
      obtain rfl := hend c (by rw [h]; rfl)
      exact ⟨by decide, by decide⟩
    · rw [hgap] at h
      obtain ⟨rfl, rfl⟩ := List.cons.inj h
      refine ⟨Bool.eq_false_iff.2 fun hblank ↦ ?_, ?_⟩
      · rw [gap_blank hblank] at hgap
        exact absurd hgap (Nat.succ_ne_zero _)
      · rintro rfl
        simp [gap, isBlank, commentLength] at hgap

/-- What holds in front of blanks and comments if it holds behind them holds in front of a gap if it
holds behind that. -/
theorem gap_induction {motive : List Char → Nat → Prop}
    (blank : ∀ {c rest k}, isBlank c = true → motive rest (k + 1) → motive (c :: rest) k)
    (comment : ∀ {words rest k}, '\n' ∉ words → (∀ c ∈ rest.head?, c = '\n') →
      motive rest (k + (words.length + 1)) → motive ('#' :: (words ++ rest)) k)
    {text : List Char} {k : Nat} (h : motive (text.drop (gap text)) (k + gap text)) :
    motive text k := by
  induction hn : text.length generalizing text k with
  | zero =>
    obtain rfl := List.length_eq_zero_iff.1 hn
    exact h
  | succ n ih =>
    rcases gap_cases text with ⟨c, rest, rfl, hblank, hgap⟩ |
      ⟨words, rest, rfl, hwords, hend, hgap⟩ | hgap
    · rw [hgap, List.drop_succ_cons, ← Nat.add_assoc, Nat.add_right_comm] at h
      exact blank hblank (ih h (Nat.succ.inj hn))
    · rw [hgap, List.drop_succ_cons, List.drop_left] at h
      exact comment hwords hend h
    · rwa [hgap] at h

/-- Where a line ends or a token begins there is no gap. -/
theorem gap_of_munch (h : munch (c :: rest) ≠ none) : gap (c :: rest) = 0 := by
  have hsep : ∀ sep ∈ separators, sep ≠ '\n' → c ≠ sep := by
    rintro sep hsep hnewline rfl
    exact h (munch_eq_none_of_separator hsep hnewline rest)
  simp only [separators, List.forall_mem_cons] at hsep
  obtain ⟨-, hcomment, hspace, htab, hreturn, -⟩ := hsep
  refine gap_eq_zero ?_ (hcomment (by decide)) rest
  simp [isBlank, hspace, htab, hreturn]

end Gaps

/-! ### Lexemes in a text -/

/-- A newline that stands at an offset. -/
def Lexeme.newline (k : Nat) : Lexeme :=
  ⟨.newline, "\n", 1, k⟩

/-- A text that stands at an offset is made of lexemes, where every newline is one, with blanks and
comments between them. -/
inductive Lexes : List Char → Nat → List Lexeme → Prop
  /-- Nothing is left. -/
  | nil {k : Nat} : Lexes [] k []
  /-- A blank is passed over. -/
  | blank {c : Char} {rest : List Char} {k : Nat} {ts : List Lexeme} (blank : isBlank c = true)
      (later : Lexes rest (k + 1) ts) : Lexes (c :: rest) k ts
  /-- A comment is passed over, up to the end of its line. -/
  | comment {text words rest : List Char} {k : Nat} {ts : List Lexeme}
      (split : text = words ++ rest) (inside : '\n' ∉ words) (lineEnd : ∀ c ∈ rest.head?, c = '\n')
      (later : Lexes rest (k + (words.length + 1)) ts) : Lexes ('#' :: text) k ts
  /-- A newline ends a line. -/
  | newline {rest : List Char} {k : Nat} {ts : List Lexeme} (later : Lexes rest (k + 1) ts) :
      Lexes ('\n' :: rest) k (.newline k :: ts)
  /-- Any other token is as long as it can be. -/
  | word {c : Char} {rest : List Char} {k n line : Nat} {kind : Kind} {ts : List Lexeme}
      (inside : c ≠ '\n') (munch : munch (c :: rest) = some (kind, n))
      (later : Lexes ((c :: rest).drop n) (k + n) ts) :
      Lexes (c :: rest) k (⟨kind, String.ofList ((c :: rest).take n), line, k⟩ :: ts)

/-- Whether a text that stands at an offset has a newline in front of another. -/
def LineEndBefore (text : List Char) (k offset : Nat) : Prop :=
  ∃ front back j, text = front ++ '\n' :: back ∧ offset = j + (k + front.length + 1)

theorem LineEndBefore.append {text : List Char} {k offset : Nat} (before : List Char)
    (h : LineEndBefore text (k + before.length) offset) :
    LineEndBefore (before ++ text) k offset := by
  obtain ⟨front, back, j, rfl, rfl⟩ := h
  refine ⟨before ++ front, back, j, (List.append_assoc _ _ _).symm, ?_⟩
  rw [List.length_append]
  omega

namespace Lexes

variable {text rest : List Char} {k : Nat} {ts : List Lexeme}

/-- A gap is passed over. -/
theorem of_gap (h : Lexes (text.drop (gap text)) (k + gap text) ts) : Lexes text k ts :=
  gap_induction (motive := fun text k ↦ Lexes text k ts) .blank (.comment rfl) h

/-- Newlines in a row are line ends in a row. -/
theorem newlines
    (h : Lexes (text.dropWhile (· = '\n')) (k + (text.takeWhile (· = '\n')).length) ts) :
    ∃ ends, (∀ t ∈ ends, t.kind = .newline) ∧ Lexes text k (ends ++ ts) := by
  induction text generalizing k with
  | nil => exact ⟨[], List.forall_mem_nil _, h⟩
  | cons c text ih =>
    by_cases hc : c = '\n'
    · subst hc
      rw [List.dropWhile_cons_of_pos (by simp), List.takeWhile_cons_of_pos (by simp),
        List.length_cons, Nat.add_comm _ 1, ← Nat.add_assoc] at h
      obtain ⟨ends, hends, hlater⟩ := ih h
      exact ⟨.newline k :: ends, List.forall_mem_cons.2 ⟨rfl, hends⟩, .newline hlater⟩
    · rw [List.dropWhile_cons_of_neg (by simpa using hc),
        List.takeWhile_cons_of_neg (by simpa using hc)] at h
      exact ⟨[], List.forall_mem_nil _, h⟩

/-- Lexemes stand in the text that is made of them. -/
theorem place_of_mem (h : Lexes text k ts) :
    ∀ t ∈ ts, k ≤ t.offset ∧ t.offset < k + text.length := by
  induction h with
  | nil => exact List.forall_mem_nil _
  | blank _ _ ih =>
    intro t ht
    have := ih t ht
    rw [List.length_cons]
    omega
  | comment hsplit _ _ _ ih =>
    intro t ht
    have := ih t ht
    rw [hsplit, List.length_cons, List.length_append]
    omega
  | newline _ ih =>
    intro t ht
    rw [List.length_cons]
    rcases List.mem_cons.1 ht with rfl | ht
    · exact ⟨Nat.le_refl _, Nat.lt_add_of_pos_right (Nat.succ_pos _)⟩
    · have := ih t ht
      omega
  | word _ hmunch _ ih =>
    intro t ht
    rw [List.length_cons]
    rcases List.mem_cons.1 ht with rfl | ht
    · exact ⟨Nat.le_refl _, Nat.lt_add_of_pos_right (Nat.succ_pos _)⟩
    · have := ih t ht
      have hle := (munch_length hmunch).2.1
      rw [List.length_drop, List.length_cons] at this
      rw [List.length_cons] at hle
      omega

/-- A lexeme is a line end or stands inside a line. -/
theorem kind_of_mem (h : Lexes text k ts) : ∀ t ∈ ts, t.kind = .newline ∨ t.kind.isWord = true := by
  induction h with
  | nil => exact List.forall_mem_nil _
  | blank _ _ ih => exact ih
  | comment _ _ _ _ ih => exact ih
  | newline _ ih => exact List.forall_mem_cons.2 ⟨.inl rfl, ih⟩
  | word hc hmunch _ ih =>
    have hkind := (munch_length hmunch).2.2
    rw [if_neg hc] at hkind
    exact List.forall_mem_cons.2 ⟨.inr hkind, ih⟩

/-- Where a line ends there is a line end. -/
theorem exists_of_newline (h : Lexes ('\n' :: rest) k ts) :
    ∃ later, ts = .newline k :: later ∧ Lexes rest (k + 1) later := by
  cases h with
  | blank hc _ => exact absurd hc (by decide)
  | newline h => exact ⟨_, rfl, h⟩
  | word hc => exact absurd rfl hc

/-- Between a line end and what stands behind it there is a newline. -/
theorem pairwise_lineEndBefore (h : Lexes text k ts) :
    ts.Pairwise fun u t ↦ u.kind = .newline → LineEndBefore text k t.offset := by
  induction h with
  | nil => exact .nil
  | @blank c _ _ _ _ _ ih => exact ih.imp fun hut hkind ↦ (hut hkind).append [c]
  | @comment _ words _ _ _ hsplit _ _ _ ih =>
    subst hsplit
    exact ih.imp fun hut hkind ↦ (hut hkind).append ('#' :: words)
  | @newline rest k ts hlater ih =>
    refine .cons (fun t ht _ ↦ ?_) (ih.imp fun hut hkind ↦ (hut hkind).append ['\n'])
    obtain ⟨j, hj⟩ := Nat.exists_eq_add_of_le (hlater.place_of_mem t ht).1
    exact ⟨[], rest, j, rfl, by rw [hj, Nat.add_comm]; rfl⟩
  | @word c rest k n line kind ts hc hmunch _ ih =>
    obtain ⟨-, hle, hword⟩ := munch_length hmunch
    rw [if_neg hc] at hword
    refine .cons (fun t _ hkind ↦ ?_) (ih.imp fun hut hkind ↦ ?_)
    · rw [show kind = .newline from hkind] at hword
      exact absurd hword (by decide)
    · have htake : ((c :: rest).take n).length = n := List.length_take_of_le hle
      rw [← List.take_append_drop n (c :: rest)]
      exact .append _ (htake.symm ▸ hut hkind)

/-- Lexemes stand one behind the other. -/
theorem pairwise_lt (h : Lexes text k ts) : ts.Pairwise fun u t ↦ u.offset < t.offset := by
  induction h with
  | nil => exact .nil
  | blank _ _ ih => exact ih
  | comment _ _ _ _ ih => exact ih
  | newline hlater ih => exact .cons (fun t ht ↦ (hlater.place_of_mem t ht).1) ih
  | word _ hmunch hlater ih =>
    exact .cons (fun t ht ↦ Nat.lt_of_lt_of_le (Nat.lt_add_of_pos_right (munch_length hmunch).1)
      (hlater.place_of_mem t ht).1) ih

/-- Further on, a text is made of the same lexemes there. -/
theorem shift (h : Lexes text k ts) (m : Nat) :
    Lexes text (k + m) (ts.map fun t ↦ t.moved t.line (t.offset + m)) := by
  induction h with
  | nil => exact .nil
  | blank hc _ ih => exact .blank hc (Nat.add_right_comm _ _ _ ▸ ih)
  | comment hsplit hinside hend _ ih =>
    exact .comment hsplit hinside hend (Nat.add_right_comm _ _ _ ▸ ih)
  | newline _ ih => exact .newline (Nat.add_right_comm _ _ _ ▸ ih)
  | word hc hmunch _ ih => exact .word hc hmunch (Nat.add_right_comm _ _ _ ▸ ih)

end Lexes

/-! ### Layouts along lexemes -/

/-- What a layout makes of lexemes one after the other, and the layout behind them. -/
inductive Layout.Runs (text : List Char) : Layout → List Lexeme → List Lexeme → Layout → Prop
  /-- Nothing is made of no lexemes. -/
  | nil (l : Layout) : Runs text l [] [] l
  /-- The first lexeme adds something, and what follows adds the rest. -/
  | cons {l l' l'' : Layout} {t : Lexeme} {tokens ts us : List Lexeme}
      (take : l.take text t = (tokens, .ok l')) (later : Runs text l' ts us l'') :
      Runs text l (t :: ts) (tokens ++ us) l''

namespace Layout.Runs

variable {text : List Char} {l l' l'' : Layout} {ts ts' us us' : List Lexeme}

theorem append (h : l.Runs text ts us l') (h' : l'.Runs text ts' us' l'') :
    l.Runs text (ts ++ ts') (us ++ us') l'' := by
  induction h with
  | nil => exact h'
  | cons ht _ ih =>
    rw [List.append_assoc]
    exact .cons ht (ih h')

theorem exists_of_append (h : l.Runs text (ts ++ ts') us l'') :
    ∃ us₁ us₂ l', l.Runs text ts us₁ l' ∧ l'.Runs text ts' us₂ l'' ∧ us = us₁ ++ us₂ := by
  induction ts generalizing l us with
  | nil => exact ⟨[], us, l, .nil l, h, rfl⟩
  | cons t ts ih =>
    cases h with
    | cons ht hlater =>
      obtain ⟨us₁, us₂, l', hfront, hback, rfl⟩ := ih hlater
      exact ⟨_, us₂, l', .cons ht hfront, hback, (List.append_assoc _ _ _).symm⟩

/-- Line ends that come to nothing are passed over. -/
theorem of_skips (hl : l.Skips) (hts : ∀ t ∈ ts, t.kind = .newline) : l.Runs text ts [] l := by
  induction ts with
  | nil => exact .nil l
  | cons t ts ih =>
    rw [List.forall_mem_cons] at hts
    exact .cons (take_of_skips hl hts.1) (ih hts.2)

end Layout.Runs

/-! ### What is delivered -/

/-- A token is another one but for the line that is noted with it, and if it does not stand inside a
line, but for where it stands and what it says. -/
def Lexeme.Same (t t' : Lexeme) : Prop :=
  t'.kind = t.kind ∧ (t.kind.isWord = true → t'.text = t.text ∧ t'.offset = t.offset)

theorem Lexeme.Same.alike {t t' : Lexeme} (h : t.Same t') (text : List Char) :
    t.Alike id text text t' :=
  ⟨h.1, fun hword ↦ (h.2 hword).1, fun hword ↦ by rw [(h.2 hword).2]; rfl⟩

theorem Lexeme.same_of_not_isWord {t t' : Lexeme} (hkind : t'.kind = t.kind)
    (h : t.kind.isWord = false) : t.Same t' :=
  ⟨hkind, fun hword ↦ absurd (h.symm.trans hword) (by decide)⟩

theorem Lexeme.same_refl (t : Lexeme) : t.Same t :=
  ⟨rfl, fun _ ↦ ⟨rfl, rfl⟩⟩

theorem forall₂_same_refl (ts : List Lexeme) : List.Forall₂ Lexeme.Same ts ts :=
  List.forall₂_same.2 fun t _ ↦ t.same_refl

theorem map_kind_of_same {ts us : List Lexeme} (h : List.Forall₂ Lexeme.Same ts us) :
    us.map (·.kind) = ts.map (·.kind) := by
  induction h with
  | nil => rfl
  | cons ht _ ih => rw [List.map_cons, List.map_cons, ht.1, ih]

theorem exists_of_same {before after us : List Lexeme} {t : Lexeme}
    (h : List.Forall₂ Lexeme.Same (before ++ t :: after) us) :
    ∃ before' t' after', us = before' ++ t' :: after' ∧
      List.Forall₂ Lexeme.Same before before' ∧ t.Same t' := by
  induction before generalizing us with
  | nil =>
    obtain _ | ⟨ht, -⟩ := h
    exact ⟨[], _, _, rfl, .nil, ht⟩
  | cons b before ih =>
    obtain _ | ⟨hb, hlater⟩ := h
    obtain ⟨before', t', after', rfl, hbefore, ht⟩ := ih hlater
    exact ⟨_ :: before', t', after', rfl, .cons hb hbefore, ht⟩

theorem Layout.same_close (l : Layout) (line offset line' offset' : Nat) :
    List.Forall₂ Lexeme.Same (l.close line offset) (l.close line' offset') := by
  refine List.rel_append ?_ ?_
  · split
    · exact .nil
    · exact .cons (Lexeme.same_of_not_isWord rfl rfl) .nil
  · rw [List.forall₂_map_left_iff, List.forall₂_map_right_iff, List.forall₂_same]
    exact fun _ _ ↦ Lexeme.same_of_not_isWord rfl rfl

section Deliveries

variable {text : List Char} {l l' : Layout} {ts us : List Lexeme}

/-- A line end does the same wherever it stands. -/
theorem Layout.exists_take_newline {t : Lexeme} {tokens : List Lexeme}
    (h : l.take text t = (tokens, .ok l')) (hkind : t.kind = .newline) {t' : Lexeme}
    (hkind' : t'.kind = .newline) :
    ∃ tokens', l.take text t' = (tokens', .ok l') ∧ List.Forall₂ Lexeme.Same tokens tokens' := by
  by_cases hl : l.Skips
  · obtain ⟨rfl, hl'⟩ := Prod.mk.inj ((take_of_skips hl hkind).symm.trans h)
    exact ⟨[], (take_of_skips hl hkind').trans (by rw [hl']), .nil⟩
  · obtain ⟨rfl, hl'⟩ := Prod.mk.inj ((take_of_not_skips hl hkind).symm.trans h)
    refine ⟨[t'], (take_of_not_skips hl hkind').trans (by rw [hl']), .cons ?_ .nil⟩
    exact Lexeme.same_of_not_isWord (hkind'.trans hkind.symm) (by rw [hkind]; rfl)

/-- What line is noted with a lexeme does not matter. -/
theorem Layout.exists_take_line {t : Lexeme} {tokens : List Lexeme}
    (h : l.take text t = (tokens, .ok l')) (line : Nat) :
    ∃ tokens', l.take text (t.moved line t.offset) = (tokens', .ok l') ∧
      List.Forall₂ Lexeme.Same tokens tokens' := by
  refine ⟨_, (l.take_moved fun _ _ ↦ rfl).trans (by rw [h]), ?_⟩
  rw [List.forall₂_map_right_iff, List.forall₂_same]
  exact fun u hu ↦ ⟨rfl, fun _ ↦ ⟨rfl, ((takes_of_take h).offset_eq u hu).symm⟩⟩

/-- What is delivered is what the layout makes of the lexemes, and of the end. -/
theorem Delivers.exists_runs {s : Scanner} (h : Delivers text s l ts) :
    ∃ lexemes us l', Lexes s.rest s.offset lexemes ∧ l.Runs text lexemes us l' ∧
      List.Forall₂ Lexeme.Same ts (us ++ l'.close 1 text.length) := by
  induction h with
  | @finished s next l hs =>
    refine ⟨[], [], l, .of_gap ?_, .nil l, l.same_close _ _ _ _⟩
    rw [Scanner.drop_gap_of_finished hs]
    exact .nil
  | @lexeme s next l l' t tokens rest hs ht _ ih =>
    obtain ⟨lexemes, us, l'', hlexes, hruns, hsame⟩ := ih
    obtain ⟨c, behind, k, n, hrest, hmunch, rfl, rfl⟩ := Scanner.exists_of_scan hs
    by_cases hc : c = '\n'
    · -- the first newline does what the line end does, and the others do nothing
      subst hc
      rw [munch, if_pos rfl, List.takeWhile_cons_of_pos (by simp)] at hmunch
      obtain ⟨rfl, rfl⟩ := Prod.mk.inj (Option.some.inj hmunch)
      rw [List.length_cons, List.drop_succ_cons, drop_length_takeWhile, Nat.add_comm _ 1,
        ← Nat.add_assoc] at hlexes
      obtain ⟨ends, hkinds, hall⟩ := hlexes.newlines
      obtain ⟨tokens', ht', htokens⟩ := Layout.exists_take_newline ht rfl
        (show (Lexeme.newline (s.offset + gap s.rest)).kind = _ from rfl)
      refine ⟨_ :: (ends ++ lexemes), tokens' ++ us, l'', .of_gap ?_,
        .cons ht' ((Layout.Runs.of_skips (Layout.skips_of_take ht rfl) hkinds).append hruns), ?_⟩
      · rw [hrest]
        exact .newline hall
      · rw [List.append_assoc]
        exact List.rel_append htokens hsame
    · refine ⟨_ :: lexemes, tokens ++ us, l'', .of_gap ?_, .cons ht hruns, ?_⟩
      · rw [hrest]
        exact .word hc hmunch hlexes
      · rw [List.append_assoc]
        exact List.rel_append (forall₂_same_refl tokens) hsame

/-- A source delivers the same whenever it delivers no fault. -/
theorem Delivers.unique {s : Scanner} (h : Delivers text s l ts) (h' : Delivers text s l us) :
    ts = us :=
  (List.map_inj_right fun _ _ ↦ Except.ok.inj).1
    ((deliveries_of_delivers h).symm.trans (deliveries_of_delivers h'))

theorem Scanner.scan_congr {s s' : Scanner} (h : s.skip (gap s.rest) = s'.skip (gap s'.rest)) :
    s.scan = s'.scan := by
  simp only [scan, h]

theorem Delivers.of_scan_eq {s s' : Scanner} (h : Delivers text s l ts) (hs : s'.scan = s.scan) :
    Delivers text s' l ts := by
  cases h with
  | finished scan => exact .finished (hs.trans scan)
  | lexeme scan take later => exact .lexeme (hs.trans scan) take later

/-- What a layout makes of the lexemes of a text, and of the end, is delivered. -/
theorem Layout.Runs.exists_delivers {rest : List Char} {k : Nat} {lexemes : List Lexeme}
    (hruns : l.Runs text lexemes us l') (hlexes : Lexes rest k lexemes) (line : Nat) :
    ∃ ts, Delivers text ⟨rest, k, line⟩ l ts ∧
      List.Forall₂ Lexeme.Same (us ++ l'.close 1 text.length) ts := by
  induction hlexes generalizing l us line with
  | @nil k =>
    cases hruns
    have hs : Scanner.scan ⟨[], k, line⟩ = .finished ⟨[], k + 0 + 1, line⟩ := rfl
    exact ⟨_, .finished hs, same_close _ _ _ _ _⟩
  | @blank c rest k lexemes hc _ ih =>
    obtain ⟨ts, hts, hsame⟩ := ih hruns line
    refine ⟨ts, hts.of_scan_eq (Scanner.scan_congr ?_), hsame⟩
    simp only [Scanner.skip, gap_blank hc, List.drop_succ_cons, Scanner.mk.injEq, true_and,
      and_true]
    omega
  | @comment text' words rest k lexemes hsplit hinside hend _ ih =>
    obtain ⟨ts, hts, hsame⟩ := ih hruns line
    refine ⟨ts, hts.of_scan_eq (Scanner.scan_congr ?_), hsame⟩
    -- a comment is the end of its gap, so the scanner finds the same behind it
    have hzero : gap rest = 0 := by
      rcases rest with - | ⟨c, rest⟩
      · rfl
      · obtain rfl := hend c rfl
        exact gap_append_newline [] rest
    simp only [Scanner.skip, hsplit, gap_comment hinside hend, hzero, List.drop_succ_cons,
      List.drop_left, List.drop_zero, Nat.add_zero]
  | @newline rest k lexemes _ ih =>
    cases hruns with
    | @cons _ l₁ _ _ tokens _ us ht hlater =>
      obtain ⟨ts, hts, hsame⟩ := ih hlater (line + 1)
      -- the scanner takes all newlines that follow as well, which come to nothing here
      have hskips := Layout.skips_of_take ht rfl
      obtain ⟨t, hkind, hscan⟩ := Scanner.exists_scan_newline rest k line
      obtain ⟨tokens', ht', htokens⟩ := Layout.exists_take_newline ht rfl hkind
      refine ⟨tokens' ++ ts, .lexeme hscan ht' (hts.dropWhile_newline hskips), ?_⟩
      rw [List.append_assoc]
      exact List.rel_append htokens hsame
  | @word c rest k n line' kind lexemes hc hmunch _ ih =>
    cases hruns with
    | @cons _ l₁ _ _ tokens _ us ht hlater =>
      have hgap : gap (c :: rest) = 0 := gap_of_munch (by rw [hmunch]; simp)
      have hscan := Scanner.scan_of_munch (s := ⟨c :: rest, k, line⟩) (by rw [hgap]; rfl) hmunch
      simp only [hgap, Nat.add_zero] at hscan
      obtain ⟨ts, hts, hsame⟩ := ih hlater (line + if kind = .newline then n else 0)
      obtain ⟨tokens', ht', htokens⟩ := exists_take_line ht line
      refine ⟨tokens' ++ ts, .lexeme hscan ht' hts, ?_⟩
      rw [List.append_assoc]
      exact List.rel_append htokens hsame

end Deliveries

end Sangria
