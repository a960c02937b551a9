import Sangria.Proofs.Token.Lexing

/-!
# Texts with something put in

What blanks, comments and line ends that are put into a text do to its lexemes, and to what a layout
makes of them.

* `Lexes.exists_cut` cuts a text in front of a line end, at its end or in front of a lexeme. The
  lexemes in front of the cut stay, whatever is put there, as long as it begins with padding up to
  the end of a line. Elsewhere a word or a comment could be cut, or a word go on.
* `Layout.Runs.exists_placed` moves lexemes of which a layout makes something. Words have to stand
  where positions are moved to, and those that begin a line as far from its start as before
  (`Layout.Fits`). `Layout.fits_front`, `Layout.fits_back` and `Layout.fits_broken` say so for what
  stands in front of an edit, behind a line end, and behind a line that is broken.
* `Layout.Runs.exists_inside` finds the lexeme of a token that is delivered inside parentheses, with
  the layout before it.
-/

namespace Sangria

/-! ### Padding -/

/-- Whether a text is nothing but blanks, perhaps with a comment behind them. -/
def isPadding : List Char → Bool
  | [] => true
  | c :: rest => if c = '#' then rest.all (· ≠ '\n') else isBlank c && isPadding rest

section Padding

variable {pad behind : List Char}

/-- Padding stands between lexemes. -/
theorem Lexes.padding (hpad : isPadding pad = true) (hbehind : ∀ c ∈ behind.head?, c = '\n')
    {k : Nat} {ts : List Lexeme} (h : Lexes behind (k + pad.length) ts) :
    Lexes (pad ++ behind) k ts := by
  induction pad generalizing k with
  | nil => exact h
  | cons c pad ih =>
    rw [isPadding] at hpad
    split at hpad
    · rename_i hc
      subst hc
      refine .comment rfl (fun hmem ↦ ?_) hbehind h
      simpa using List.all_eq_true.1 hpad _ hmem
    · rw [Bool.and_eq_true] at hpad
      refine .blank hpad.1 (ih hpad.2 ?_)
      rwa [List.length_cons, Nat.add_comm pad.length, ← Nat.add_assoc] at h

/-- Blanks stand between lexemes. -/
theorem Lexes.blanks (hpad : ∀ c ∈ pad, isBlank c = true) {k : Nat} {ts : List Lexeme}
    (h : Lexes behind (k + pad.length) ts) : Lexes (pad ++ behind) k ts := by
  induction pad generalizing k with
  | nil => exact h
  | cons c pad ih =>
    rw [List.forall_mem_cons] at hpad
    refine .blank hpad.1 (ih hpad.2 ?_)
    rwa [List.length_cons, Nat.add_comm pad.length, ← Nat.add_assoc] at h

/-- What begins with padding separates words. -/
theorem mem_separators_of_padding (hpad : isPadding pad = true)
    (hbehind : ∀ c ∈ behind.head?, c = '\n') : ∀ c ∈ (pad ++ behind).head?, c ∈ separators := by
  intro c hc
  rcases pad with - | ⟨d, pad⟩
  · rw [hbehind c hc]
    exact List.mem_cons_self
  · obtain rfl := Option.some.inj hc
    rw [isPadding] at hpad
    split at hpad
    · rename_i hc
      rw [hc]
      decide
    · rw [Bool.and_eq_true] at hpad
      have hblank := hpad.1
      simp only [isBlank, Bool.or_eq_true, decide_eq_true_eq] at hblank
      simp only [separators, List.mem_cons, List.not_mem_nil, or_false]
      tauto

theorem newline_not_mem_of_padding (hpad : isPadding pad = true) : '\n' ∉ pad := by
  induction pad with
  | nil => exact List.not_mem_nil
  | cons c pad ih =>
    rw [isPadding] at hpad
    rw [List.mem_cons, not_or]
    split at hpad
    · rename_i hc
      subst hc
      exact ⟨by decide, fun hmem ↦ by simpa using List.all_eq_true.1 hpad _ hmem⟩
    · rw [Bool.and_eq_true] at hpad
      refine ⟨?_, ih hpad.2⟩
      rintro rfl
      exact absurd hpad.1 (by decide)

end Padding

theorem munch_append_separators {c : Char} (hc : c ≠ '\n') {rest behind : List Char}
    (hbehind : ∀ c ∈ behind.head?, c ∈ separators) {r : Kind × Nat}
    (h : munch (c :: rest) = some r) : munch (c :: rest ++ behind) = some r := by
  rcases behind with - | ⟨sep, behind⟩
  · rwa [List.append_nil]
  · exact munch_append_separator behind (hbehind sep rfl) hc h

/-! ### A text cut in two -/

/-- The lexemes of a text that is cut at a place: those in front of it, which stay when something
else is put there that begins with padding up to the end of a line, and those behind it. -/
structure Lexes.Cut (front back : List Char) (k place : Nat) (ts₁ ts₂ : List Lexeme) : Prop where
  /-- Those in front of the place begin there. -/
  before : ∀ t ∈ ts₁, t.offset < place
  /-- The text behind is made of those behind. -/
  behind : Lexes back place ts₂
  /-- Something else can be put behind. -/
  resumed : ∀ pad behind us, isPadding pad = true → (∀ c ∈ behind.head?, c = '\n') →
    Lexes behind (place + pad.length) us → Lexes (front ++ (pad ++ behind)) k (ts₁ ++ us)

namespace Lexes.Cut

variable {front back words more : List Char} {k n place line : Nat} {kind : Kind} {c : Char}
  {ts ts₁ ts₂ : List Lexeme}

theorem start (h : Lexes back k ts) : Cut [] back k k [] ts :=
  ⟨List.forall_mem_nil _, h, fun _ _ _ hpad hbehind hus ↦ .padding hpad hbehind hus⟩

theorem blank (hc : isBlank c = true) (h : Cut front back (k + 1) place ts₁ ts₂) :
    Cut (c :: front) back k place ts₁ ts₂ :=
  ⟨h.before, h.behind, fun pad behind us hpad hbehind hus ↦
    .blank hc (h.resumed pad behind us hpad hbehind hus)⟩

theorem newline (hk : k < place) (h : Cut front back (k + 1) place ts₁ ts₂) :
    Cut ('\n' :: front) back k place (.newline k :: ts₁) ts₂ :=
  ⟨List.forall_mem_cons.2 ⟨hk, h.before⟩, h.behind, fun pad behind us hpad hbehind hus ↦
    .newline (h.resumed pad behind us hpad hbehind hus)⟩

/-- What is put behind a comment is part of it up to the end of the line. -/
theorem endComment (hwords : '\n' ∉ words) (h : Lexes back (k + (words.length + 1)) ts) :
    Cut ('#' :: words) back k (k + (words.length + 1)) [] ts := by
  refine ⟨List.forall_mem_nil _, h, fun pad behind us hpad hbehind hus ↦ ?_⟩
  have hinside : '\n' ∉ words ++ pad := by
    rw [List.mem_append, not_or]
    exact ⟨hwords, newline_not_mem_of_padding hpad⟩
  have hlength : words.length + 1 + pad.length = (words ++ pad).length + 1 := by
    rw [List.length_append]
    omega
  rw [Nat.add_assoc k, hlength] at hus
  exact .comment (List.append_assoc _ _ _).symm hinside hbehind hus

theorem comment (hwords : '\n' ∉ words)
    (h : Cut ('\n' :: more) back (k + (words.length + 1)) place ts₁ ts₂) :
    Cut ('#' :: (words ++ '\n' :: more)) back k place ts₁ ts₂ :=
  ⟨h.before, h.behind, fun pad behind us hpad hbehind hus ↦
    .comment (List.append_assoc _ _ _) hwords (fun _ hc ↦ (Option.some.inj hc).symm)
      (h.resumed pad behind us hpad hbehind hus)⟩

theorem word (hc : c ≠ '\n') (hmunch : munch (c :: front) = some (kind, n)) (hk : k < place)
    (h : Cut ((c :: front).drop n) back (k + n) place ts₁ ts₂) :
    Cut (c :: front) back k place
      (⟨kind, String.ofList ((c :: front).take n), line, k⟩ :: ts₁) ts₂ := by
  refine ⟨List.forall_mem_cons.2 ⟨hk, h.before⟩, h.behind, fun pad behind us hpad hbehind hus ↦ ?_⟩
  have hle := (munch_length hmunch).2.1
  have hlater := h.resumed pad behind us hpad hbehind hus
  rw [← List.drop_append_of_le_length hle] at hlater
  rw [← List.take_append_of_le_length hle]
  exact Lexes.word hc
    (munch_append_separators hc (mem_separators_of_padding hpad hbehind) hmunch) hlater

end Lexes.Cut

/-- Whether a text can be cut at a place: in front of a line end, at its end or in front of one of
the lexemes. -/
def Lexes.Seam (back : List Char) (place : Nat) (ts : List Lexeme) : Prop :=
  (∀ c ∈ back.head?, c = '\n') ∨ ∃ t ∈ ts, t.offset = place

namespace Lexes.Seam

variable {front back words rest : List Char} {k n place : Nat} {kind : Kind} {c : Char} {u : Lexeme}
  {ts : List Lexeme}

theorem of_cons (h : Seam back place (u :: ts)) (hu : u.offset ≠ place) : Seam back place ts :=
  h.imp_right fun hmem ↦
    ((List.exists_mem_cons_iff (Lexeme.offset · = place) _ _).1 hmem).resolve_left hu

/-- A comment ends where its text can be cut, or before. -/
theorem comment_cut (hseam : Seam back place ts) (hplace : k + (front.length + 1) = place)
    (hsplit : front ++ back = words ++ rest) (hinside : '\n' ∉ words)
    (hend : ∀ c ∈ rest.head?, c = '\n') (h : Lexes rest (k + (words.length + 1)) ts) :
    (front = words ∧ back = rest) ∨ ∃ more, front = words ++ '\n' :: more ∧
      rest = '\n' :: more ++ back := by
  rcases List.append_eq_append_iff.1 hsplit with ⟨more, hwords, hback⟩ | ⟨more, hfront, hrest⟩
  · rcases more with - | ⟨d, more⟩
    · exact .inl ⟨by rw [hwords, List.append_nil], hback⟩
    · exfalso
      rcases hseam with hseam | ⟨t, ht, hoffset⟩
      · obtain rfl : d = '\n' := hseam d (by rw [hback]; rfl)
        exact hinside (hwords ▸ List.mem_append_right _ List.mem_cons_self)
      · have := (h.place_of_mem t ht).1
        rw [hwords, List.length_append, List.length_cons] at this
        omega
  · rcases more with - | ⟨d, more⟩
    · exact .inl ⟨by rw [hfront, List.append_nil], hrest.symm⟩
    · obtain rfl : d = '\n' := hend d (by rw [hrest]; rfl)
      exact .inr ⟨more, hfront, hrest⟩

/-- A word ends where its text can be cut, or before. -/
theorem munch_le (hseam : Seam back place ts) (hplace : k + (front.length + 1) = place)
    (hc : c ≠ '\n') (hmunch : munch (c :: (front ++ back)) = some (kind, n))
    (h : Lexes ((c :: (front ++ back)).drop n) (k + n) ts) : n ≤ front.length + 1 := by
  rcases hseam with hseam | ⟨t, ht, hoffset⟩
  · rcases back with - | ⟨d, back⟩
    · rw [List.append_nil] at hmunch
      exact (munch_length hmunch).2.1
    · obtain rfl : d = '\n' := hseam d rfl
      rw [← List.cons_append, munch_append_newline back hc] at hmunch
      exact (munch_length hmunch).2.1
  · have := (h.place_of_mem t ht).1
    omega

end Lexes.Seam

/-- Where a text can be cut, its lexemes are cut in two. -/
theorem Lexes.exists_cut {front back : List Char} {k place : Nat} {ts : List Lexeme}
    (h : Lexes (front ++ back) k ts) (hplace : k + front.length = place)
    (hseam : Seam back place ts) :
    ∃ ts₁ ts₂, ts = ts₁ ++ ts₂ ∧ Cut front back k place ts₁ ts₂ := by
  -- words and comments are long, so the induction is on how much stands in front of the place
  induction hn : front.length using Nat.strongRecOn generalizing front k ts with
  | ind n ih =>
    subst hn
    rcases front with - | ⟨c, front⟩
    · obtain rfl : k = place := hplace
      exact ⟨[], ts, rfl, .start h⟩
    have hk : k < place := hplace ▸ Nat.lt_add_of_pos_right (Nat.succ_pos _)
    rw [List.length_cons] at hplace
    cases h with
    | blank hc h =>
      obtain ⟨ts₁, ts₂, rfl, hcut⟩ := ih _ (Nat.lt_succ_self _) h (by omega) hseam rfl
      exact ⟨ts₁, ts₂, rfl, hcut.blank hc⟩
    | newline h =>
      obtain ⟨ts₁, ts₂, rfl, hcut⟩ :=
        ih _ (Nat.lt_succ_self _) h (by omega) (hseam.of_cons hk.ne) rfl
      exact ⟨_ :: ts₁, ts₂, rfl, hcut.newline hk⟩
    | @comment _ words rest _ _ hsplit hinside hend h =>
      rcases hseam.comment_cut hplace hsplit hinside hend h with ⟨rfl, rfl⟩ | ⟨more, rfl, rfl⟩
      · obtain rfl : k + (front.length + 1) = place := hplace
        exact ⟨[], ts, rfl, .endComment hinside h⟩
      · have hlength : (words ++ '\n' :: more).length = words.length + ('\n' :: more).length :=
          List.length_append
        obtain ⟨ts₁, ts₂, rfl, hcut⟩ := ih ('\n' :: more).length
          (by rw [List.length_cons (a := '#')]; omega) h (by omega) hseam rfl
        exact ⟨ts₁, ts₂, rfl, hcut.comment hinside⟩
    | @word _ _ _ n line kind ts hc hmunch h =>
      have hseam' := hseam.of_cons hk.ne
      have hle : n ≤ (c :: front).length := hseam'.munch_le hplace hc hmunch h
      have htake : (c :: (front ++ back)).take n = (c :: front).take n :=
        List.take_append_of_le_length hle
      have hdrop : (c :: (front ++ back)).drop n = (c :: front).drop n ++ back :=
        List.drop_append_of_le_length hle
      have hlength : ((c :: front).drop n).length + n = front.length + 1 := by
        rw [List.length_drop, Nat.sub_add_cancel hle, List.length_cons]
      have hpos := (munch_length hmunch).1
      obtain ⟨ts₁, ts₂, rfl, hcut⟩ := ih ((c :: front).drop n).length
        (by rw [List.length_cons]; omega) (hdrop ▸ h) (by omega) hseam' rfl
      rw [show (c :: front.append back).take n = (c :: front).take n from htake]
      exact ⟨_ :: ts₁, ts₂, rfl, hcut.word hc (munch_of_append hc hmunch hle) hk⟩

/-- Cut in front of a lexeme, a text has those before it in front. -/
theorem Lexes.cut_at {front back : List Char} {k place : Nat} {t : Lexeme} {ts₁ ts₂ : List Lexeme}
    (h : Lexes (front ++ back) k (ts₁ ++ t :: ts₂)) (hplace : k + front.length = place)
    (ht : t.offset = place) : Cut front back k place ts₁ (t :: ts₂) := by
  have hfirst {as bs : List Lexeme} (has : ∀ t ∈ as, t.offset < place)
      (hbs : ∀ t ∈ bs, place ≤ t.offset) : (as ++ bs).takeWhile (·.offset < place) = as := by
    have hnone : bs.takeWhile (·.offset < place) = [] := by
      cases bs with
      | nil => rfl
      | cons b bs => exact List.takeWhile_cons_of_neg (by simpa using hbs b List.mem_cons_self)
    rw [List.takeWhile_append_of_pos (by simpa using has), hnone, List.append_nil]
  obtain ⟨-, hts₂, hts⟩ := List.pairwise_append.1 h.pairwise_lt
  rw [List.pairwise_cons, ht] at hts₂
  obtain ⟨us₁, us₂, heq, hcut⟩ :=
    h.exists_cut hplace (.inr ⟨t, List.mem_append_right _ List.mem_cons_self, ht⟩)
  obtain rfl : ts₁ = us₁ := by
    rw [← hfirst hcut.before fun t ht ↦ (hcut.behind.place_of_mem t ht).1, ← heq]
    refine (hfirst (fun u hu ↦ ht ▸ hts u hu t List.mem_cons_self) ?_).symm
    exact List.forall_mem_cons.2 ⟨ht.ge, fun u hu ↦ (hts₂.1 u hu).le⟩
  rwa [List.append_cancel_left heq]

/-! ### Layouts of lexemes that stand elsewhere -/

/-- A run that ends with a line end comes to a layout in which others come to nothing. -/
theorem Layout.Runs.skips {text : List Char} {l l' : Layout} {ts us : List Lexeme} {t : Lexeme}
    (h : l.Runs text (ts ++ [t]) us l') (hkind : t.kind = .newline) : l'.Skips := by
  obtain ⟨us₁, us₂, l₁, -, hlast, -⟩ := h.exists_of_append
  cases hlast with
  | cons ht hnil =>
    cases hnil
    exact skips_of_take ht hkind

section Moved

variable {f : Position → Position} {text text' : List Char} {l l' : Layout} {t : Lexeme}
  {ts tokens us : List Lexeme}

/-- A word that a lexeme adds is the lexeme itself. -/
theorem Layout.Takes.eq_of_isWord (h : l.Takes t tokens l') :
    ∀ u ∈ tokens, u.kind.isWord = true → u = t := by
  intro u hu hword
  rcases h.eq_or_unwritten u hu with rfl | rfl | rfl
  · rfl
  · exact absurd hword Bool.false_ne_true
  · exact absurd hword Bool.false_ne_true

/-- Behind a word, a line is under way. -/
theorem Layout.Takes.fresh_eq (h : l.Takes t tokens l') (hkind : t.kind ≠ .newline) :
    l'.fresh = false := by
  cases h with
  | skipped hnewline => exact absurd hnewline hkind
  | ended hnewline => exact absurd hnewline hkind
  | inside => rfl
  | opened => rfl
  | closed => rfl

/-- A lexeme with its offset replaced. -/
abbrev Lexeme.placed (g : Nat → Nat) (t : Lexeme) : Lexeme :=
  t.moved t.line (g t.offset)

/-- Lexemes that a layout goes on with stand in another text where positions are moved to, and those
that begin a line as far from its start: all of them if a line is to begin, and otherwise those that
have a line end before them. -/
structure Layout.Fits (f : Position → Position) (text text' : List Char) (g : Nat → Nat)
    (l : Layout) (ts : List Lexeme) : Prop where
  /-- Words stand where positions are moved to. -/
  place : ∀ t ∈ ts, t.kind.isWord = true →
    Position.ofOffset text' (g t.offset) = f (Position.ofOffset text t.offset)
  /-- Where a line is to begin, they stand as far from its start. -/
  fresh : l.fresh = true → ∀ t ∈ ts, t.kind ≠ .newline →
    lineBefore text' (g t.offset) = lineBefore text t.offset
  /-- Behind a line end, they stand as far from the start of a line. -/
  behind : ts.Pairwise fun u t ↦ u.kind = .newline → t.kind ≠ .newline →
    lineBefore text' (g t.offset) = lineBefore text t.offset

/-- Words that stand as far from the start of their line fit. -/
theorem Layout.fits_of_line {g : Nat → Nat}
    (h : ∀ t ∈ ts, t.kind ≠ .newline →
      Position.ofOffset text' (g t.offset) = f (Position.ofOffset text t.offset) ∧
        lineBefore text' (g t.offset) = lineBefore text t.offset) :
    l.Fits f text text' g ts where
  place t ht hword := (h t ht fun hkind ↦ by rw [hkind] at hword; exact absurd hword (by decide)).1
  fresh _ t ht hkind := (h t ht hkind).2
  behind := List.pairwise_of_forall_mem_list fun _ _ t ht _ hkind ↦ (h t ht hkind).2

/-- Lexemes in front of a place fit with anything behind it, if their positions stay. -/
theorem Layout.fits_front {front : List Char} (h : ∀ t ∈ ts, t.offset ≤ front.length)
    (hf : ∀ t ∈ ts, t.kind ≠ .newline →
      f (Position.ofOffset front t.offset) = Position.ofOffset front t.offset)
    (back back' : List Char) : l.Fits f (front ++ back) (front ++ back') id ts := by
  refine fits_of_line fun t ht hkind ↦ ?_
  rw [id, Position.ofOffset_front (h t ht), Position.ofOffset_front (h t ht), hf t ht hkind,
    lineBefore_front (h t ht), lineBefore_front (h t ht)]
  exact ⟨rfl, rfl⟩

/-- Lexemes behind a line end fit with anything in front of it, if their positions go down. -/
theorem Layout.fits_back {front front' : List Char} {m : Nat}
    (hlength : front.length + m = front'.length)
    (h : ∀ t ∈ ts, t.kind ≠ .newline → front.length < t.offset)
    (hf : ∀ p : Position, 1 ≤ p.line →
      f (p.down (1 + front.count '\n')) = p.down (1 + front'.count '\n'))
    (back : List Char) : l.Fits f (front ++ '\n' :: back) (front' ++ '\n' :: back) (· + m) ts := by
  refine fits_of_line fun t ht hkind ↦ ?_
  obtain ⟨j, hj⟩ := Nat.exists_eq_add_of_lt (h t ht hkind)
  have hfront : t.offset = j + (front.length + 1) := by omega
  have hfront' : t.offset + m = j + (front'.length + 1) := by omega
  rw [hfront', hfront, Position.ofOffset_back, Position.ofOffset_back, lineBefore_back,
    lineBefore_back, hf _ (Position.line_pos back j)]
  exact ⟨rfl, rfl⟩

/-- Lexemes behind a place where a line is broken fit, if the line is under way. -/
theorem Layout.fits_broken {front back blanks : List Char} (hblanks : '\n' ∉ blanks)
    (hts : Lexes back front.length ts) (hl : l.fresh = false) :
    l.Fits (.broken (.ofEnd front) blanks.length) (front ++ back)
      (front ++ '\n' :: (blanks ++ back)) (· + (blanks.length + 1)) ts where
  place t ht _ := by
    obtain ⟨j, hj⟩ := Nat.exists_eq_add_of_le (hts.place_of_mem t ht).1
    have hfront : t.offset = j + front.length := by omega
    have hfront' : t.offset + (blanks.length + 1) = j + (front ++ '\n' :: blanks).length := by
      rw [List.length_append, List.length_cons]
      omega
    have htext : front ++ '\n' :: (blanks ++ back) = (front ++ '\n' :: blanks) ++ back := by
      rw [List.append_assoc, List.cons_append]
    rw [hfront', hfront, htext, Position.ofOffset_append, Position.ofOffset_append,
      Position.broken_after _ (Position.line_pos back j) (Position.column_pos back j),
      Position.ofEnd_broken front hblanks]
  fresh hfresh := absurd (hl.symm.trans hfresh) (by decide)
  behind := by
    refine hts.pairwise_lineEndBefore.imp fun {u t} hut hkind _ ↦ ?_
    obtain ⟨a, b, j, rfl, hj⟩ := hut hkind
    have hfront : t.offset = j + ((front ++ a).length + 1) := by
      rw [List.length_append]
      omega
    have hfront' : t.offset + (blanks.length + 1) =
        j + ((front ++ '\n' :: (blanks ++ a)).length + 1) := by
      simp only [List.length_append, List.length_cons]
      omega
    have htext : front ++ '\n' :: (blanks ++ (a ++ '\n' :: b)) =
        (front ++ '\n' :: (blanks ++ a)) ++ '\n' :: b := by simp
    rw [hfront', hfront, htext, ← List.append_assoc, lineBefore_back, lineBefore_back]

/-- A layout makes the same of lexemes that fit. -/
theorem Layout.Runs.exists_placed {g : Nat → Nat} (h : l.Runs text ts us l')
    (hfits : l.Fits f text text' g ts) :
    ∃ us', l.Runs text' (ts.map (·.placed g)) us' l' ∧
      List.Forall₂ (Lexeme.Alike f text text') us us' := by
  induction h with
  | nil l => exact ⟨[], .nil l, .nil⟩
  | @cons l l' l'' t tokens ts us ht _ ih =>
    obtain ⟨hplace, hfresh, hbehind⟩ := hfits
    rw [List.forall_mem_cons] at hplace
    rw [List.pairwise_cons] at hbehind
    have htakes := takes_of_take ht
    -- a line is to begin only behind a line end
    have hfresh' (hl' : l'.fresh = true) : ∀ u ∈ ts, u.kind ≠ .newline →
        lineBefore text' (g u.offset) = lineBefore text u.offset := by
      intro u hu
      by_cases hkind : t.kind = .newline
      · exact hbehind.1 u hu hkind
      · exact absurd (hl'.symm.trans (htakes.fresh_eq hkind)) (by decide)
    obtain ⟨us', hruns, halike⟩ := ih ⟨hplace.2, hfresh', hbehind.2⟩
    have ht' : l.take text' (t.placed g) = (tokens.map (·.moved t.line (g t.offset)), .ok l') := by
      refine (l.take_moved fun hkind hl ↦ ?_).trans (by rw [ht])
      rw [indentWidth, indentWidth, hfresh hl t List.mem_cons_self hkind]
    refine ⟨_, .cons ht' hruns, List.rel_append ?_ halike⟩
    rw [List.forall₂_map_right_iff, List.forall₂_same]
    refine fun u hu ↦ ⟨rfl, fun _ ↦ rfl, fun hword ↦ ?_⟩
    obtain rfl := htakes.eq_of_isWord u hu hword
    exact hplace.1 hword

end Moved

/-- Line ends in front of the end of a source change nothing: the first one ends the line that the
end would have ended. -/
theorem Layout.exists_runs_newlines (text : List Char) (l : Layout) {ends : List Lexeme}
    (hends : ∀ t ∈ ends, t.kind = .newline) :
    ∃ us l', l.Runs text ends us l' ∧ us.map (·.kind) ++ l'.closeKinds = l.closeKinds := by
  by_cases hl : l.Skips
  · exact ⟨[], l, .of_skips hl hends, rfl⟩
  · cases ends with
    | nil => exact ⟨[], l, .nil l, rfl⟩
    | cons t ends =>
      rw [List.forall_mem_cons] at hends
      have ht : l.take text t = _ := take_of_not_skips hl hends.1
      refine ⟨_, _, .cons ht (.of_skips (skips_of_take ht hends.1) hends.2), ?_⟩
      have hfresh : l.fresh = false := Bool.eq_false_iff.2 fun h ↦ hl (.inr h)
      simp [closeKinds, hends.1, hfresh]

/-! ### Inside parentheses -/

section Inside

variable {text : List Char} {l l' : Layout} {t u : Lexeme} {ts us tokens before after : List Lexeme}

/-- A word adds itself, behind what it announces where it begins a line. -/
theorem Layout.Takes.exists_announced (h : l.Takes u tokens l') (hkind : u.kind ≠ .newline) :
    ∃ announced, tokens = announced ++ [u] ∧ (∀ a ∈ announced, a.kind.isWord = false) ∧
      (l.fresh = false → announced = []) := by
  cases h with
  | skipped hnewline => exact absurd hnewline hkind
  | ended hnewline => exact absurd hnewline hkind
  | inside => exact ⟨[], rfl, List.forall_mem_nil _, fun _ ↦ rfl⟩
  | opened _ hfresh =>
    exact ⟨[unwritten .indent u], rfl, List.forall_mem_singleton.2 rfl,
      fun h ↦ absurd (h.symm.trans hfresh) (by decide)⟩
  | closed _ hfresh =>
    refine ⟨_, rfl, fun a ha ↦ ?_, fun h ↦ absurd (h.symm.trans hfresh) (by decide)⟩
    obtain ⟨w, -, rfl⟩ := List.mem_map.1 ha
    rfl

/-- A line end adds itself, if anything. -/
theorem Layout.Takes.kind_eq_of_newline (h : l.Takes u tokens l') (hkind : u.kind = .newline) :
    ∀ t ∈ tokens, t.kind = .newline := by
  cases h with
  | skipped => exact List.forall_mem_nil _
  | ended => exact List.forall_mem_singleton.2 hkind
  | inside hne => exact absurd hkind hne
  | opened hne => exact absurd hkind hne
  | closed hne => exact absurd hkind hne

/-- No line begins inside parentheses. -/
theorem Layout.Takes.depth_eq_of_fresh (h : l.Takes u tokens l')
    (hl : l.fresh = true → l.depth = 0) : l'.fresh = true → l'.depth = 0 := by
  cases h with
  | skipped => exact hl
  | ended _ hdepth => exact fun _ ↦ hdepth
  | inside => exact fun h ↦ absurd h (by simp)
  | opened => exact fun h ↦ absurd h (by simp)
  | closed => exact fun h ↦ absurd h (by simp)

/-- Among what a lexeme adds, only itself can stand inside parentheses, and no line begins there. -/
theorem Layout.Takes.inside_of_open (h : l.Takes u (before ++ t :: after) l')
    (hl : l.fresh = true → l.depth = 0) (hopen : 0 < openParens l.depth (before.map (·.kind))) :
    t = u ∧ u.kind ≠ .newline ∧ 0 < l.depth ∧ l.fresh = false := by
  have hbefore {announced : List Lexeme} (hannounced : ∀ a ∈ announced, a.kind.isWord = false)
      (hopen : 0 < openParens l.depth (announced.map (·.kind))) :
      0 < l.depth ∧ l.fresh = false := by
    rw [openParens_of_not_isWord _ (List.forall_mem_map.2 hannounced)] at hopen
    exact ⟨hopen, Bool.eq_false_iff.2 fun hfresh ↦ hopen.ne' (hl hfresh)⟩
  by_cases hkind : u.kind = .newline
  · -- a line end is not delivered inside parentheses
    obtain ⟨-, rfl, hdepth⟩ := h.eq_of_newline rfl (h.kind_eq_of_newline hkind t (by simp))
    exact absurd hdepth (hbefore (List.forall_mem_nil _) hopen).1.ne'
  · obtain ⟨announced, htokens, hannounced, hfresh⟩ := h.exists_announced hkind
    rcases exists_of_append_eq_append_cons htokens.symm with ⟨cs, rfl, -⟩ | ⟨cs, rfl, hcs⟩
    · have hline := (hbefore (fun a ha ↦ hannounced a (List.mem_append_left _ ha)) hopen).2
      exact absurd (hfresh hline) (by simp)
    · obtain ⟨rfl, rfl, -⟩ : cs = [] ∧ t = u ∧ after = [] := by
        rcases cs with - | ⟨c, cs⟩
        · obtain ⟨rfl, rfl⟩ := List.cons.inj hcs
          exact ⟨rfl, rfl, rfl⟩
        · exact absurd (List.cons.inj hcs).2 (by simp)
      rw [List.append_nil] at hopen
      exact ⟨rfl, hkind, hbefore hannounced hopen⟩

/-- The layout counts the open parentheses of what it makes of lexemes. -/
theorem Layout.Runs.openParens_eq (h : l.Runs text ts us l') :
    openParens l.depth (us.map (·.kind)) = l'.depth := by
  induction h with
  | nil => rfl
  | cons ht _ ih =>
    rw [List.map_append, openParens_append, (takes_of_take ht).openParens_eq]
    exact ih

/-- Before a token that is delivered inside parentheses, the layout has some open and a line under
way; the token is a lexeme. -/
theorem Layout.Runs.exists_inside (h : l.Runs text ts us l') (hl : l.fresh = true → l.depth = 0)
    (hl' : l'.depth = 0) {line offset : Nat}
    (hus : us ++ l'.close line offset = before ++ t :: after)
    (hopen : 0 < openParens l.depth (before.map (·.kind))) :
    ∃ ts₁ ts₂ us₁ us₂ l₁, ts = ts₁ ++ t :: ts₂ ∧ us = us₁ ++ us₂ ∧ l.Runs text ts₁ us₁ l₁ ∧
      l₁.Runs text (t :: ts₂) us₂ l' ∧ t.kind ≠ .newline ∧ 0 < l₁.depth ∧ l₁.fresh = false := by
  induction h generalizing before with
  | nil l =>
    have hkinds : ∀ a ∈ before, a.kind.isWord = false := by
      intro a ha
      refine l.isWord_of_mem_closeKinds a.kind ?_
      rw [← l.map_kind_close line offset, show l.close line offset = _ from hus]
      exact List.mem_map_of_mem (List.mem_append_left _ ha)
    rw [openParens_of_not_isWord _ (List.forall_mem_map.2 hkinds)] at hopen
    exact absurd hl' hopen.ne'
  | @cons l l₁ l₂ u tokens ts us ht hlater ih =>
    have htakes := takes_of_take ht
    rw [List.append_assoc] at hus
    rcases exists_of_append_eq_append_cons hus with ⟨cs, rfl, -⟩ | ⟨cs, rfl, hrest⟩
    · obtain ⟨rfl, hinside⟩ := htakes.inside_of_open hl hopen
      exact ⟨[], ts, [], _, l, rfl, rfl, .nil l, .cons ht hlater, hinside⟩
    · rw [List.map_append, openParens_append, htakes.openParens_eq] at hopen
      obtain ⟨ts₁, ts₂, us₁, us₂, l₃, rfl, rfl, hruns, hinside⟩ :=
        ih (htakes.depth_eq_of_fresh hl) hl' hrest hopen
      exact ⟨u :: ts₁, ts₂, _, us₂, l₃, rfl, (List.append_assoc _ _ _).symm, .cons ht hruns,
        hinside⟩

end Inside

end Sangria
