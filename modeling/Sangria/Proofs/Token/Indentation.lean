import Sangria.Proofs.Token.Tiling

/-!
# What indentation means

Blocks that are open have widths, each wider than the one around it (`IsNested`). A line is as wide
as the innermost block that is open behind what it announces, or has no width where none is open;
and a source is refused for its indentation at the first line that is narrower than its block but
neither as wide as one around it nor without a width (`indentation_levels`).

Which lexemes begin a line does not depend on widths (`lineStarts`), so the second part is told of
lexemes as the scanner finds them (`Scanner.Reads`), without regard to what the layout makes of
them.

## What each part rests on

* `Layout.snd_take` says all that one lexeme does to a layout whose blocks are nested: on those, the
  blocks that a line closes are the wider ones, wherever they stand among the open ones.
* `Delivers.fitting` follows the blocks along what is delivered.
* `deliveries_of_firstMisfit` and `cases_of_mem_deliveries` follow a scanner through its source
  up to a fault.
-/

namespace Sangria

/-! ### Widths of open blocks -/

/-- Whether widths, innermost first, are those of blocks in one another. -/
structure IsNested (levels : List Nat) : Prop where
  /-- Each is wider than those around it. -/
  pairwise : levels.Pairwise (· > ·)
  /-- Each has a width. -/
  pos : ∀ w ∈ levels, 0 < w

/-- Whether a line is narrower than its block, but neither as wide as one around it nor without a
width. -/
def Misfits (levels : List Nat) (width : Nat) : Prop :=
  width < Layout.level levels ∧ width ≠ 0 ∧ width ∉ levels

instance (levels : List Nat) (width : Nat) : Decidable (Misfits levels width) :=
  inferInstanceAs (Decidable (_ ∧ _ ∧ _))

/-- The widths of the blocks that are open behind the start of a line: its own if it is wider than
all, and otherwise those that it is not narrower than. -/
def levelsAfter (levels : List Nat) (width : Nat) : List Nat :=
  if Layout.level levels < width then width :: levels else levels.filter (· ≤ width)

theorem IsNested.nil : IsNested [] :=
  ⟨.nil, List.forall_mem_nil _⟩

namespace IsNested

variable {levels : List Nat} {width : Nat}

/-- The innermost block is the widest. -/
theorem le_level (h : IsNested levels) : ∀ w ∈ levels, w ≤ Layout.level levels := by
  cases levels with
  | nil => exact List.forall_mem_nil _
  | cons v levels =>
    exact List.forall_mem_cons.2
      ⟨Nat.le_refl v, fun w hw ↦ Nat.le_of_lt (List.rel_of_pairwise_cons h.pairwise hw)⟩

/-- The wider ones are the inner ones. -/
theorem span_eq (h : IsNested levels) (width : Nat) :
    levels.takeWhile (width < ·) = levels.filter (width < ·) ∧
      levels.dropWhile (width < ·) = levels.filter (· ≤ width) := by
  induction levels with
  | nil => exact ⟨rfl, rfl⟩
  | cons v levels ih =>
    obtain ⟨hv, hlater⟩ := List.pairwise_cons.1 h.pairwise
    by_cases hlt : width < v
    · obtain ⟨htake, hdrop⟩ := ih ⟨hlater, (List.forall_mem_cons.1 h.pos).2⟩
      simp [hlt, htake, hdrop]
    · have hnone : ∀ w ∈ levels, w ≤ width := fun w hw ↦ by
        have := hv w hw
        omega
      have hwider : levels.filter (width < ·) = [] :=
        List.filter_eq_nil_iff.2 fun w hw ↦ by simpa using hnone w hw
      have hothers : levels.filter (· ≤ width) = levels :=
        List.filter_eq_self.2 fun w hw ↦ by simpa using hnone w hw
      simp [hlt, Nat.le_of_not_lt hlt, hwider, hothers]

/-- A block is opened inside the others, or the blocks around it stay. -/
theorem levelsAfter (h : IsNested levels) (width : Nat) : IsNested (levelsAfter levels width) := by
  unfold Sangria.levelsAfter
  split
  · rename_i hlt
    refine ⟨List.pairwise_cons.2 ⟨fun w hw ↦ ?_, h.pairwise⟩,
      List.forall_mem_cons.2 ⟨Nat.zero_lt_of_lt hlt, h.pos⟩⟩
    exact Nat.lt_of_le_of_lt (h.le_level w hw) hlt
  · exact ⟨h.pairwise.filter _, fun w hw ↦ h.pos w (List.mem_of_mem_filter hw)⟩

/-- What a line leaves open behind it begins with a block of its own width, or there is none and the
line has no width, unless it fits no block. -/
theorem level_filter_eq_iff (h : IsNested levels) (hle : ¬Layout.level levels < width) :
    Layout.level (levels.filter (· ≤ width)) = width ↔ ¬Misfits levels width := by
  have hsub : ∀ w ∈ levels.filter (· ≤ width), w ≤ width := fun w hw ↦ by
    simpa using (List.mem_filter.1 hw).2
  have hnested : IsNested (levels.filter (· ≤ width)) :=
    ⟨h.pairwise.filter _, fun w hw ↦ h.pos w (List.mem_of_mem_filter hw)⟩
  refine ⟨fun heq ⟨_, hzero, hmem⟩ ↦ ?_, fun hfits ↦ ?_⟩
  · -- a width that is not zero is that of the first block
    rcases hkept : levels.filter (· ≤ width) with - | ⟨v, rest⟩
    · exact hzero (by rw [← heq, hkept]; rfl)
    · obtain rfl : v = width := by rw [← heq, hkept]; rfl
      exact hmem (List.mem_of_mem_filter (hkept ▸ List.mem_cons_self))
  · by_cases hmem : width ∈ levels
    · have hkept : width ∈ levels.filter (· ≤ width) := List.mem_filter.2 ⟨hmem, by simp⟩
      have hle := hnested.le_level width hkept
      rcases hfirst : levels.filter (· ≤ width) with - | ⟨v, rest⟩
      · exact absurd hkept (hfirst ▸ List.not_mem_nil)
      · have hv := hsub v (hfirst ▸ List.mem_cons_self)
        rw [hfirst] at hle
        exact Nat.le_antisymm hv hle
    · -- no block is as wide, so the line has no width and none is open behind it
      have hzero : width = 0 := by
        by_contra hne
        have hlevel : width ≠ Layout.level levels := by
          rintro rfl
          rcases levels with - | ⟨v, levels⟩
          · exact hne rfl
          · exact hmem List.mem_cons_self
        exact hfits ⟨by omega, hne, hmem⟩
      subst hzero
      have hnone : levels.filter (· ≤ 0) = [] := by
        refine List.filter_eq_nil_iff.2 fun w hw ↦ ?_
        have := h.pos w hw
        simpa using Nat.ne_of_gt this
      rw [hnone]
      rfl

/-- Behind the start of a line that fits, the innermost block is as wide as the line. -/
theorem level_levelsAfter (h : IsNested levels) (hfits : ¬Misfits levels width) :
    Layout.level (Sangria.levelsAfter levels width) = width := by
  unfold Sangria.levelsAfter
  split
  · rfl
  · rename_i hle
    exact (h.level_filter_eq_iff hle).2 hfits

/-- What the start of a line does to the open blocks. -/
theorem snd_startLine (h : IsNested levels) (width : Nat) (t : Lexeme) :
    (Layout.startLine levels width t).2 =
      if Misfits levels width then none else some (Sangria.levelsAfter levels width) := by
  rw [Layout.startLine, Sangria.levelsAfter]
  by_cases hlt : Layout.level levels < width
  · have hfits : ¬Misfits levels width := fun hmis ↦ Nat.lt_asymm hlt hmis.1
    rw [if_pos hlt, if_pos hlt, if_neg hfits]
  · rw [if_neg hlt, if_neg hlt]
    simp only [(h.span_eq width).2, h.level_filter_eq_iff hlt, ite_not]

end IsNested

/-- All that a lexeme does to a layout whose blocks are nested. -/
theorem Layout.snd_take {l : Layout} (h : IsNested l.levels) (text : List Char) (t : Lexeme) :
    (l.take text t).2 =
      if t.kind = .newline then .ok { l with fresh := l.fresh || l.depth = 0 }
      else if l.fresh = false then .ok ⟨l.levels, depthAfter l.depth t.kind, false⟩
      else if Misfits l.levels (indentWidth text t.offset) then .error .dedent
      else .ok ⟨levelsAfter l.levels (indentWidth text t.offset), depthAfter l.depth t.kind,
        false⟩ := by
  have hstart := h.snd_startLine (indentWidth text t.offset) t
  obtain ⟨levels, depth, fresh⟩ := l
  unfold take
  by_cases hkind : t.kind = .newline
  · rw [if_pos hkind, if_pos hkind]
    cases fresh <;> rcases depth with - | depth <;> simp
  · rw [if_neg hkind, if_neg hkind]
    cases fresh with
    | false => rfl
    | true =>
      dsimp only at hstart ⊢
      rw [if_pos rfl, if_neg Bool.false_ne_true.symm]
      rcases heq : startLine levels (indentWidth text t.offset) t with ⟨announced, - | levels'⟩
      · rw [heq] at hstart
        split at hstart
        · rename_i hmis
          rw [if_pos hmis]
        · exact absurd hstart (by simp)
      · rw [heq] at hstart
        split at hstart
        · exact absurd hstart (by simp)
        · rename_i hfits
          rw [if_neg hfits, Option.some.inj hstart]

/-! ### Widths among tokens -/

/-- The widths of the blocks that are open behind tokens, where some are open before: each that a
token opens has the width of the line there. -/
def openWidths (text : List Char) (levels : List Nat) (ts : List Lexeme) : List Nat :=
  ts.foldl (fun levels t ↦ match t.kind with
    | .indent => indentWidth text t.offset :: levels
    | .dedent => levels.tail
    | _ => levels) levels

/-- Whether a token behind others begins a line: only blocks are announced since the last line end,
or since the start, where a token would begin a line or not. -/
def beginsLine (fresh : Bool) (ts : List Lexeme) : Bool :=
  ts.foldl (fun fresh t ↦ t.kind = .newline || (fresh && !t.kind.isWord)) fresh

section Tokens

variable {text : List Char} {s : Scanner} {l l' : Layout} {t : Lexeme} {tokens ts : List Lexeme}

theorem openWidths_append (text : List Char) (levels : List Nat) (ts us : List Lexeme) :
    openWidths text levels (ts ++ us) = openWidths text (openWidths text levels ts) us :=
  List.foldl_append

theorem beginsLine_append (fresh : Bool) (ts us : List Lexeme) :
    beginsLine fresh (ts ++ us) = beginsLine (beginsLine fresh ts) us :=
  List.foldl_append

theorem openWidths_dedents (text : List Char) (inner outer : List Nat) (t : Lexeme) :
    openWidths text (inner ++ outer) (inner.map fun _ ↦ Layout.unwritten .dedent t) = outer := by
  induction inner with
  | nil => rfl
  | cons w inner ih => exact ih

theorem beginsLine_announced (fresh : Bool)
    (h : ∀ u ∈ ts, u.kind = .indent ∨ u.kind = .dedent) : beginsLine fresh ts = fresh := by
  induction ts with
  | nil => rfl
  | cons u us ih =>
    obtain ⟨hu, hus⟩ := List.forall_mem_cons.1 h
    refine Eq.trans ?_ (ih hus)
    show beginsLine _ us = beginsLine fresh us
    rcases hu with hu | hu <;> simp [hu, Kind.isWord]

/-- What the start of a line announces is what it does to the open blocks. -/
theorem Layout.announced_of_startLine {levels levels' : List Nat} {announced : List Lexeme}
    (h : startLine levels (indentWidth text t.offset) t = (announced, some levels')) :
    openWidths text levels announced = levels' ∧
      ∀ u ∈ announced, u.kind = .indent ∨ u.kind = .dedent := by
  unfold startLine at h
  dsimp only at h
  split at h
  · obtain ⟨rfl, hlevels⟩ := Prod.mk.inj h
    obtain rfl := Option.some.inj hlevels
    exact ⟨rfl, by simp [unwritten]⟩
  · obtain ⟨rfl, hlevels⟩ := Prod.mk.inj h
    split at hlevels
    · obtain rfl := Option.some.inj hlevels
      refine ⟨?_, fun u hu ↦ ?_⟩
      · have hdedents := openWidths_dedents text
          (levels.takeWhile (indentWidth text t.offset < ·))
          (levels.dropWhile (indentWidth text t.offset < ·)) t
        rwa [List.takeWhile_append_dropWhile] at hdedents
      · obtain ⟨w, -, rfl⟩ := List.mem_map.1 hu
        exact .inr rfl
    · exact absurd hlevels (by simp)

/-- Where a token that begins a line stands, the open blocks are nested, and the innermost is as
wide as the line. -/
def Fitting (text : List Char) (l : Layout) (ts : List Lexeme) : Prop :=
  ∀ front t behind, ts = front ++ t :: behind → t.kind.isWord = true →
    beginsLine l.fresh front = true →
      IsNested (openWidths text l.levels front) ∧
        indentWidth text t.offset = Layout.level (openWidths text l.levels front)

theorem Fitting.of_not_isWord (h : ∀ u ∈ ts, u.kind.isWord ≠ true) : Fitting text l ts :=
  fun _ u _ heq hu ↦ absurd hu (h u (heq ▸ List.mem_append_right _ List.mem_cons_self))

/-- A token that begins a line is added behind what that announces. -/
theorem Layout.exists_startLine_of_take (h : l.take text t = (tokens, .ok l'))
    (hkind : t.kind ≠ .newline) (hfresh : l.fresh = true) :
    ∃ announced, startLine l.levels (indentWidth text t.offset) t = (announced, some l'.levels) ∧
      tokens = announced ++ [t] ∧ l'.fresh = false := by
  rw [take, if_neg hkind] at h
  dsimp only at h
  rw [if_pos hfresh] at h
  split at h
  · rename_i announced levels heq
    obtain ⟨rfl, hl⟩ := Prod.mk.inj h
    obtain rfl := Except.ok.inj hl
    exact ⟨announced, heq, rfl, rfl⟩
  · exact absurd (Prod.mk.inj h).2 (by simp)

/-- What a lexeme adds to the stream is what the layout knows of blocks and lines behind it. -/
theorem Layout.fitting_of_take (h : l.take text t = (tokens, .ok l')) (hl : IsNested l.levels)
    (ht : t.kind ≠ .newline → t.kind.isWord = true) :
    IsNested l'.levels ∧ openWidths text l.levels tokens = l'.levels ∧
      beginsLine l.fresh tokens = l'.fresh ∧ Fitting text l tokens := by
  by_cases hkind : t.kind = .newline
  · have hnot : t.kind.isWord ≠ true := by rw [hkind]; decide
    by_cases hskips : l.Skips
    · obtain ⟨rfl, hl'⟩ := Prod.mk.inj ((take_of_skips hskips hkind).symm.trans h)
      obtain rfl := Except.ok.inj hl'
      exact ⟨hl, rfl, rfl, .of_not_isWord (List.forall_mem_nil _)⟩
    · obtain ⟨rfl, hl'⟩ := Prod.mk.inj ((take_of_not_skips hskips hkind).symm.trans h)
      obtain rfl := Except.ok.inj hl'
      exact ⟨hl, by simp [openWidths, hkind], by simp [beginsLine, hkind],
        .of_not_isWord (List.forall_mem_singleton.2 hnot)⟩
  · have hword := ht hkind
    have hself (levels : List Nat) : openWidths text levels [t] = levels := by
      show (match t.kind with
        | .indent => indentWidth text t.offset :: levels
        | .dedent => levels.tail
        | _ => levels) = levels
      split
      · rename_i hindent
        exact absurd hword (by rw [hindent]; decide)
      · rename_i hdedent
        exact absurd hword (by rw [hdedent]; decide)
      · rfl
    rcases hfresh : l.fresh with - | -
    · obtain ⟨rfl, hl'⟩ := Prod.mk.inj ((take_inside hkind hfresh).symm.trans h)
      obtain rfl := Except.ok.inj hl'
      refine ⟨hl, hself _, by simp [beginsLine, hkind], fun front u behind heq _ hbegins ↦ ?_⟩
      -- nothing stands before the token, and it begins no line
      obtain ⟨rfl, -⟩ := eq_of_singleton_eq_append_cons heq
      exact absurd (hfresh.symm.trans hbegins) (by decide)
    · obtain ⟨announced, hstart, rfl, hfresh'⟩ := exists_startLine_of_take h hkind hfresh
      obtain ⟨hopen, hkinds⟩ := announced_of_startLine hstart
      have hnested := hl.snd_startLine (indentWidth text t.offset) t
      rw [hstart] at hnested
      split at hnested
      · exact absurd hnested (by simp)
      · rename_i hfits
        have hlevels : l'.levels = levelsAfter l.levels (indentWidth text t.offset) :=
          Option.some.inj hnested
        have hl' : IsNested l'.levels := hlevels ▸ hl.levelsAfter _
        refine ⟨hl', ?_, ?_, fun front u behind heq hu _ ↦ ?_⟩
        · rw [openWidths_append, hopen, hself]
        · rw [beginsLine_append, beginsLine_announced _ hkinds, hfresh']
          simp [beginsLine, hkind, hword]
        · rcases exists_of_append_eq_append_cons heq with ⟨cs, hfront, -⟩ | ⟨cs, rfl, hrest⟩
          · have hannounced := hkinds u (hfront ▸ List.mem_append_right _ List.mem_cons_self)
            rcases hannounced with hk | hk <;> exact absurd hu (by rw [hk]; decide)
          · obtain ⟨rfl, rfl, -⟩ := eq_of_singleton_eq_append_cons hrest
            rw [List.append_nil, hopen, hlevels]
            exact ⟨hl.levelsAfter _, (hl.level_levelsAfter hfits).symm⟩

/-- The end of a source adds the end of a line and of blocks. -/
theorem Layout.kind_of_mem_close (l : Layout) (line offset : Nat) :
    ∀ u ∈ l.close line offset, u.kind = .newline ∨ u.kind = .dedent := by
  intro u hu
  rcases List.mem_append.1 hu with hu | hu
  · split at hu
    · exact absurd hu List.not_mem_nil
    · exact .inl (by rw [List.mem_singleton.1 hu])
  · obtain ⟨w, -, rfl⟩ := List.mem_map.1 hu
    exact .inr rfl

/-- Where a line begins in what is delivered, its width is that of the innermost block. -/
theorem Delivers.fitting (h : Delivers text s l ts) (hl : IsNested l.levels) :
    Fitting text l ts := by
  induction h with
  | finished hs =>
    refine .of_not_isWord fun u hu ↦ ?_
    rcases Layout.kind_of_mem_close _ _ _ u hu with hk | hk <;> simp [hk, Kind.isWord]
  | @lexeme s next l l' t tokens rest hs ht _ ih =>
    obtain ⟨hl', hopen, hfresh, hfitting⟩ :=
      Layout.fitting_of_take ht hl (Scanner.isWord_of_scan hs)
    intro front u behind heq hu hbegins
    rcases exists_of_append_eq_append_cons heq with ⟨cs, htokens, -⟩ | ⟨cs, rfl, hrest⟩
    · exact hfitting front u cs htokens hu hbegins
    · rw [beginsLine_append, hfresh] at hbegins
      rw [openWidths_append, hopen]
      exact ih hl' cs u behind hrest hu hbegins

/-- A block is announced right before the token that begins its first line. -/
theorem Layout.Takes.eq_of_indent (h : l.Takes t tokens l') (ht : t.kind ≠ .indent)
    {front behind : List Lexeme} {u : Lexeme} (htokens : tokens = front ++ u :: behind)
    (hu : u.kind = .indent) : u = unwritten .indent t ∧ behind = [t] ∧ t.kind ≠ .newline := by
  have hmem : u ∈ tokens := htokens ▸ List.mem_append_right _ List.mem_cons_self
  have hne : u ≠ t := fun heq ↦ ht (heq ▸ hu)
  cases h with
  | skipped => exact absurd hmem List.not_mem_nil
  | ended => exact absurd (List.mem_singleton.1 hmem) hne
  | inside => exact absurd (List.mem_singleton.1 hmem) hne
  | opened hkind =>
    rcases front with - | ⟨v, front⟩
    · obtain ⟨rfl, rfl⟩ := List.cons.inj htokens
      exact ⟨rfl, rfl, hkind⟩
    · exact absurd (eq_of_singleton_eq_append_cons (List.cons.inj htokens).2).2.1 hne
  | closed =>
    rcases List.mem_append.1 hmem with hmem | hmem
    · obtain ⟨w, -, rfl⟩ := List.mem_map.1 hmem
      exact absurd hu (by simp [unwritten])
    · exact absurd (List.mem_singleton.1 hmem) hne

/-- A block is announced where the first token of its first line stands. -/
theorem Delivers.word_of_indent (h : Delivers text s l ts) :
    ∀ front u behind, ts = front ++ u :: behind → u.kind = .indent →
      ∃ t rest, behind = t :: rest ∧ t.kind.isWord = true ∧ t.offset = u.offset := by
  induction h with
  | finished hs =>
    intro front u behind heq hu
    have hmem : u ∈ Layout.close _ _ _ := heq ▸ List.mem_append_right _ List.mem_cons_self
    rcases Layout.kind_of_mem_close _ _ _ u hmem with hk | hk <;> simp [hk] at hu
  | @lexeme s next l l' t tokens rest hs ht _ ih =>
    intro front u behind heq hu
    have hnot : t.kind ≠ .indent := fun hindent ↦ by
      simpa [hindent, Kind.isWord] using Scanner.kind_of_scan hs
    rcases exists_of_append_eq_append_cons heq with ⟨cs, htokens, rfl⟩ | ⟨cs, -, hrest⟩
    · obtain ⟨rfl, rfl, hkind⟩ := (Layout.takes_of_take ht).eq_of_indent hnot htokens hu
      exact ⟨t, rest, rfl, Scanner.isWord_of_scan hs hkind, rfl⟩
    · exact ih cs u behind hrest hu

end Tokens

/-! ### Lines among lexemes -/

/-- What a scanner finds one after the other, and where it stands then. -/
inductive Scanner.Reads : Scanner → List Lexeme → Scanner → Prop
  /-- Nothing is read. -/
  | nil (s : Scanner) : Reads s [] s
  /-- A lexeme is read, and then others. -/
  | cons {s next last : Scanner} {t : Lexeme} {ts : List Lexeme} (scan : s.scan = .lexeme t next)
      (later : Reads next ts last) : Reads s (t :: ts) last

/-- The lexemes that begin a line, where so many parentheses are open and the first one would begin
a line or not: those that stand first behind a line end outside parentheses. -/
def lineStarts (depth : Nat) (fresh : Bool) : List Lexeme → List Lexeme
  | [] => []
  | t :: ts =>
    if t.kind = .newline then lineStarts depth (fresh || depth = 0) ts
    else (if fresh then [t] else []) ++ lineStarts (Layout.depthAfter depth t.kind) false ts

/-- The widths of the blocks that are open behind the starts of lines. -/
def levelsBehind (text : List Char) (levels : List Nat) (starts : List Lexeme) : List Nat :=
  starts.foldl (fun levels t ↦ levelsAfter levels (indentWidth text t.offset)) levels

/-- A lexeme behind others is the first one that begins a line which fits no block. -/
structure FirstMisfit (text : List Char) (l : Layout) (ts : List Lexeme) (t : Lexeme) : Prop where
  /-- It begins a line. -/
  start : lineStarts l.depth l.fresh (ts ++ [t]) = lineStarts l.depth l.fresh ts ++ [t]
  /-- The lines before it fit. -/
  fit : ∀ front u behind, lineStarts l.depth l.fresh ts = front ++ u :: behind →
    ¬Misfits (levelsBehind text l.levels front) (indentWidth text u.offset)
  /-- Its own does not. -/
  misfits : Misfits (levelsBehind text l.levels (lineStarts l.depth l.fresh ts))
    (indentWidth text t.offset)

section Starts

variable {text : List Char} {s s' : Scanner} {l l' : Layout} {t u : Lexeme} {ts : List Lexeme}

theorem levelsBehind_append (text : List Char) (levels : List Nat) (ts us : List Lexeme) :
    levelsBehind text levels (ts ++ us) = levelsBehind text (levelsBehind text levels ts) us :=
  List.foldl_append

theorem lineStarts_cons (depth : Nat) (fresh : Bool) (t : Lexeme) (ts : List Lexeme) :
    lineStarts depth fresh (t :: ts) =
      if t.kind = .newline then lineStarts depth (fresh || depth = 0) ts
      else (if fresh then [t] else []) ++ lineStarts (Layout.depthAfter depth t.kind) false ts :=
  rfl

theorem lineStarts_singleton_eq_iff {depth : Nat} {fresh : Bool} :
    lineStarts depth fresh [t] = [t] ↔ t.kind ≠ .newline ∧ fresh = true := by
  rw [lineStarts_cons]
  by_cases hkind : t.kind = .newline
  · simp [hkind, lineStarts]
  · cases fresh <;> simp [hkind, lineStarts]

/-- A lexeme that shows no fault begins no line, or one that fits. -/
theorem Layout.exists_starts (hl : IsNested l.levels) (h : (l.take text u).2 = .ok l') :
    ∃ starts, (∀ ts, lineStarts l.depth l.fresh (u :: ts) =
        starts ++ lineStarts l'.depth l'.fresh ts) ∧
      levelsBehind text l.levels starts = l'.levels ∧ IsNested l'.levels ∧
      ∀ front v behind, starts = front ++ v :: behind →
        ¬Misfits (levelsBehind text l.levels front) (indentWidth text v.offset) := by
  have hnone : ∀ front v behind, ([] : List Lexeme) = front ++ v :: behind →
      ¬Misfits (levelsBehind text l.levels front) (indentWidth text v.offset) :=
    fun front v behind heq ↦ absurd heq (by simp)
  rw [l.snd_take hl] at h
  split at h
  · rename_i hkind
    obtain rfl := Except.ok.inj h
    exact ⟨[], fun ts ↦ if_pos hkind, rfl, hl, hnone⟩
  · rename_i hkind
    split at h
    · rename_i hfresh
      obtain rfl := Except.ok.inj h
      exact ⟨[], fun ts ↦ by rw [lineStarts_cons, if_neg hkind, hfresh]; rfl, rfl, hl, hnone⟩
    · rename_i hfresh
      split at h
      · exact absurd h (by simp)
      · rename_i hfits
        obtain rfl := Except.ok.inj h
        refine ⟨[u], fun ts ↦ ?_, rfl, hl.levelsAfter _, fun front v behind heq ↦ ?_⟩
        · rw [lineStarts_cons, if_neg hkind, if_pos (Bool.not_eq_false _ ▸ hfresh)]
        · obtain ⟨rfl, rfl, -⟩ := eq_of_singleton_eq_append_cons heq
          exact hfits

/-- A lexeme that shows a fault begins a line that fits no block. -/
theorem Layout.firstMisfit_of_take {f : LexicalFault} (hl : IsNested l.levels)
    (h : (l.take text t).2 = .error f) : f = .dedent ∧ FirstMisfit text l [] t := by
  rw [l.snd_take hl] at h
  split at h
  · exact absurd h (by simp)
  · rename_i hkind
    split at h
    · exact absurd h (by simp)
    · rename_i hfresh
      split at h
      · rename_i hmis
        have hstart : lineStarts l.depth l.fresh [t] = [t] :=
          lineStarts_singleton_eq_iff.2 ⟨hkind, Bool.not_eq_false _ ▸ hfresh⟩
        exact ⟨(Except.error.inj h).symm, hstart, fun front u behind heq ↦
          absurd heq (by simp [lineStarts]), hmis⟩
      · exact absurd h (by simp)

namespace FirstMisfit

/-- What fits no block shows a fault. -/
theorem snd_take_eq (h : FirstMisfit text l [] t) (hl : IsNested l.levels) :
    (l.take text t).2 = .error .dedent := by
  obtain ⟨hkind, hfresh⟩ := lineStarts_singleton_eq_iff.1 h.start
  have hmis : Misfits l.levels (indentWidth text t.offset) := h.misfits
  rw [l.snd_take hl, if_neg hkind, if_neg (by rw [hfresh]; decide), if_pos hmis]

/-- What is the first misfit behind a lexeme is the first one from it on. -/
theorem cons_iff (hl : IsNested l.levels) (h : (l.take text u).2 = .ok l') :
    FirstMisfit text l (u :: ts) t ↔ FirstMisfit text l' ts t := by
  obtain ⟨starts, hstarts, hlevels, -, hfit⟩ := Layout.exists_starts hl h
  have hbehind (us : List Lexeme) :
      levelsBehind text l.levels (starts ++ us) = levelsBehind text l'.levels us := by
    rw [levelsBehind_append, hlevels]
  refine ⟨fun ⟨hstart, hfit', hmis⟩ ↦ ⟨?_, fun front v behind heq ↦ ?_, ?_⟩,
    fun ⟨hstart, hfit', hmis⟩ ↦ ⟨?_, fun front v behind heq ↦ ?_, ?_⟩⟩
  · rw [List.cons_append, hstarts, hstarts, List.append_assoc] at hstart
    exact List.append_cancel_left hstart
  · rw [← hbehind]
    exact hfit' (starts ++ front) v behind (by rw [hstarts, heq, List.append_assoc])
  · rwa [hstarts, hbehind] at hmis
  · rw [List.cons_append, hstarts, hstarts, hstart, List.append_assoc]
  · rw [hstarts] at heq
    rcases exists_of_append_eq_append_cons heq with ⟨cs, hfront, -⟩ | ⟨cs, rfl, hrest⟩
    · exact hfit front v cs hfront
    · rw [hbehind]
      exact hfit' cs v behind hrest
  · rwa [hstarts, hbehind]

/-- A lexeme before the first misfit shows no fault. -/
theorem exists_take (h : FirstMisfit text l (u :: ts) t) (hl : IsNested l.levels) :
    ∃ l', (l.take text u).2 = .ok l' := by
  rcases htake : (l.take text u).2 with f | l'
  · -- it would be a misfit before the first one
    obtain ⟨-, hfirst⟩ := Layout.firstMisfit_of_take hl htake
    obtain ⟨hkind, hfresh⟩ := lineStarts_singleton_eq_iff.1 hfirst.start
    have hstarts : lineStarts l.depth l.fresh (u :: ts) =
        [] ++ u :: lineStarts (Layout.depthAfter l.depth u.kind) false ts := by
      rw [lineStarts_cons, if_neg hkind, if_pos hfresh]
      rfl
    exact absurd hfirst.misfits (h.fit [] u _ hstarts)
  · exact ⟨l', rfl⟩

end FirstMisfit

/-- A scanner that reads up to the first misfit delivers its fault. -/
theorem deliveries_of_firstMisfit (hreads : s.Reads (ts ++ [t]) s') (h : FirstMisfit text l ts t)
    (hl : IsNested l.levels) :
    ∃ us : List Lexeme, deliveries text s l =
      us.map .ok ++ [.error (LexicalFault.dedent.diagnostic text t.offset)] := by
  induction ts generalizing s l with
  | nil =>
    obtain _ | ⟨hscan, -⟩ := hreads
    exact ⟨_, deliveries_of_fault hscan (Prod.ext rfl (h.snd_take_eq hl))⟩
  | cons u ts ih =>
    obtain _ | ⟨hscan, hlater⟩ := hreads
    obtain ⟨l', htake⟩ := h.exists_take hl
    obtain ⟨-, -, -, hl', -⟩ := Layout.exists_starts hl htake
    obtain ⟨us, hus⟩ := ih hlater ((FirstMisfit.cons_iff hl htake).1 h) hl'
    refine ⟨(l.take text u).1 ++ us, ?_⟩
    rw [deliveries_of_lexeme hscan (Prod.ext rfl htake), hus, List.map_append, List.append_assoc]

/-- A fault that is delivered is that of a character that begins no token, or of the first line that
fits no block. -/
theorem cases_of_mem_deliveries {d : Diagnostic} (h : .error d ∈ deliveries text s l)
    (hl : IsNested l.levels) :
    (∃ ts s' c next, s.Reads ts s' ∧ s'.scan = .illegal c next ∧
      d = (LexicalFault.ofChar c).diagnostic text next.offset) ∨
    ∃ ts t s', s.Reads (ts ++ [t]) s' ∧ FirstMisfit text l ts t ∧
      d = LexicalFault.dedent.diagnostic text t.offset := by
  have hfault {tokens : List Lexeme} {rest : List Delivery}
      (h : .error d ∈ tokens.map .ok ++ rest) : .error d ∈ rest :=
    (List.mem_append.1 h).resolve_left (by simp)
  induction s, l using deliveries_induction text with
  | finished s next l hs => exact absurd h (by simp)
  | illegal s next l c hs =>
    obtain rfl := Except.error.inj (List.mem_singleton.1 h)
    exact .inl ⟨[], s, c, next, .nil s, hs, rfl⟩
  | fault s next l t tokens f hs ht =>
    obtain rfl := Except.error.inj (List.mem_singleton.1 (hfault h))
    obtain ⟨rfl, hfirst⟩ := Layout.firstMisfit_of_take hl (congrArg Prod.snd ht)
    exact .inr ⟨[], t, next, .cons hs (.nil next), hfirst, rfl⟩
  | lexeme s next l l' t tokens hs ht ih =>
    have htake : (l.take text t).2 = .ok l' := congrArg Prod.snd ht
    obtain ⟨-, -, -, hl', -⟩ := Layout.exists_starts hl htake
    rcases ih (hfault h) hl' with
      ⟨ts, s', c, last, hreads, hrest⟩ | ⟨ts, u, s', hreads, hfirst, rfl⟩
    · exact .inl ⟨t :: ts, s', c, last, .cons hs hreads, hrest⟩
    · exact .inr ⟨t :: ts, u, s', .cons hs hreads, (FirstMisfit.cons_iff hl htake).2 hfirst, rfl⟩

end Starts

/-! ### Sources -/

theorem LexicalFault.message_ofChar_ne (c : Char) :
    (LexicalFault.ofChar c).message ≠ LexicalFault.dedent.message := by
  unfold LexicalFault.ofChar
  split
  · decide
  · intro h
    have hfirst := congrArg (fun message : String ↦ message.toList.head?) h
    have hillegal : (LexicalFault.illegal c).message.toList.head? = some 'c' := by
      show ("carácter ilegal " ++ quoted (String.singleton c)).toList.head? = some 'c'
      rw [String.toList_append]
      rfl
    exact absurd (hillegal.symm.trans hfirst) (by decide)

/-- Blocks in one another, told from the outermost one. -/
theorem IsNested.reverse {levels : List Nat} (h : IsNested levels) :
    levels.reverse.Pairwise (· < ·) ∧ (∀ w ∈ levels.reverse, 0 < w) ∧
      levels.reverse.getLastD 0 = Layout.level levels := by
  refine ⟨List.pairwise_reverse.2 h.pairwise, fun w hw ↦ h.pos w (List.mem_reverse.1 hw), ?_⟩
  rw [List.getLastD_eq_getLast?, List.getLast?_reverse, Layout.level, List.headD_eq_head?_getD]

/-- Where a source has tokens, a block is announced right before the first token of its first line,
which is told of the same place. Where a line begins, behind the blocks that it announces, the
widths of the open blocks, from the outermost one, go up from more than nothing, and the line is as
wide as the last of them, or has no width where there is none.

A source is refused for its indentation exactly if, up to some lexeme, it is made of lexemes only,
and that one is the first to begin a line which is narrower than its block, but neither without a
width nor as wide as any open block; and that is where the fault stands. -/
theorem indentation_levels (source : String) :
    (∀ tokens, tokenize source = .ok tokens → ∃ ts : List Lexeme,
      (TokenStream.ofText source.toList).drain.1 = ts.map .ok ∧
      tokens = ts.map (TokenStream.token source.toList) ++
        [TokenStream.eofToken source.toList] ∧
      (∀ front u behind, ts = front ++ u :: behind → u.kind = .indent →
        ∃ t rest, behind = t :: rest ∧ t.kind.isWord = true ∧ t.offset = u.offset) ∧
      ∀ front t behind, ts = front ++ t :: behind → t.kind.isWord = true →
        beginsLine true front = true →
          let widths := (openWidths source.toList [] front).reverse
          widths.Pairwise (· < ·) ∧ (∀ w ∈ widths, 0 < w) ∧
            indentWidth source.toList t.offset = widths.getLastD 0) ∧
    ∀ d, (tokenize source = .error d ∧ d.message = LexicalFault.dedent.message) ↔
      ∃ ts t s, (Scanner.ofText source.toList).Reads (ts ++ [t]) s ∧
        FirstMisfit source.toList .initial ts t ∧
        d = LexicalFault.dedent.diagnostic source.toList t.offset := by
  refine ⟨fun tokens h ↦ ?_, fun d ↦ ⟨fun ⟨h, hmessage⟩ ↦ ?_, ?_⟩⟩
  · obtain ⟨ts, hts, rfl⟩ := tokenize_eq_ok_iff.1 h
    refine ⟨ts, deliveries_of_delivers hts, rfl, hts.word_of_indent,
      fun front t behind heq ht hbegins ↦ ?_⟩
    obtain ⟨hnested, hwidth⟩ := hts.fitting .nil front t behind heq ht hbegins
    obtain ⟨hpairwise, hpos, hlast⟩ := hnested.reverse
    exact ⟨hpairwise, hpos, hwidth.trans hlast.symm⟩
  · obtain ⟨us, hus⟩ := tokenize_eq_error_iff.1 h
    have hmem : .error d ∈ deliveries source.toList (.ofText source.toList) .initial := by
      rw [hus]
      exact List.mem_append_right _ (List.mem_singleton_self _)
    rcases cases_of_mem_deliveries hmem .nil with ⟨ts, s, c, next, -, -, rfl⟩ | hfirst
    · exact absurd hmessage (LexicalFault.message_ofChar_ne c)
    · exact hfirst
  · rintro ⟨ts, t, s, hreads, hfirst, rfl⟩
    obtain ⟨us, hus⟩ := deliveries_of_firstMisfit hreads hfirst .nil
    exact ⟨tokenize_eq_error_iff.2 ⟨us, hus⟩, rfl⟩

/-- Blocks of two blanks and of a tab in one another, and a line between two blocks. -/
theorem indentation_levels_blocks :
    let blocks := "if a:\n  if b:\n\tc\nd"
    let fault : Diagnostic :=
      ⟨.lexical, "la indentación no coincide con ningún nivel exterior", some ⟨3, 3⟩, []⟩
    (∃ tokens, tokenize blocks = .ok tokens ∧ ∃ ts : List Lexeme,
      tokens = ts.map (TokenStream.token blocks.toList) ++ [TokenStream.eofToken blocks.toList] ∧
      ∀ front t behind, ts = front ++ t :: behind → t.kind.isWord = true →
        beginsLine true front = true →
          let widths := (openWidths blocks.toList [] front).reverse
          widths.Pairwise (· < ·) ∧ (∀ w ∈ widths, 0 < w) ∧
            indentWidth blocks.toList t.offset = widths.getLastD 0) ∧
    tokenize "if a:\n    b\n  c" = .error fault ∧
    ∃ ts t s, (Scanner.ofText "if a:\n    b\n  c".toList).Reads (ts ++ [t]) s ∧
      FirstMisfit "if a:\n    b\n  c".toList .initial ts t ∧
      fault = LexicalFault.dedent.diagnostic "if a:\n    b\n  c".toList t.offset := by
  intro blocks fault
  obtain ⟨tokens, htokens⟩ : ∃ tokens, tokenize "if a:\n  if b:\n\tc\nd" = .ok tokens :=
    ⟨_, by rfl⟩
  have hfault : tokenize "if a:\n    b\n  c" = .error fault := by rfl
  obtain ⟨ts, -, heq, -, hwidths⟩ := (indentation_levels _).1 _ htokens
  exact ⟨⟨tokens, htokens, ts, heq, hwidths⟩, hfault,
    ((indentation_levels _).2 _).1 ⟨hfault, rfl⟩⟩

end Sangria
