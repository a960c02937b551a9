import Mathlib.Data.List.TakeWhile
import Sangria.Proofs.Grammar.Relocation
import Sangria.Proofs.Position
import Sangria.Proofs.Token.Shape

/-!
# Tokens of sources that are joined

Two sources with a newline between them are one source. Its tokens are those of the first, at the
same places, and then those of the second, further down (`Delivers.join`), provided that the first
closes its parentheses and the second does not begin with blanks that would start a block.

## What the seam does

The newline ends the line that the first source leaves open, as the end of the source would; line
ends on either side of it become one token with it. The blocks that are left open are closed by the
first token of the second source, because it stands at the start of its line
(`Delivers.exists_seam`, `Delivers.exists_resumed`). In front of the seam a scanner finds what it
found before (`Scanner.scan_append_newline`), and behind it a scanner finds the same further down
(`Scanner.exists_scan_shift`).
-/

namespace Sangria

/-! ### Scanners in joined sources -/

theorem drop_length_takeWhile (p : Char → Bool) (text : List Char) :
    text.drop (text.takeWhile p).length = text.dropWhile p := by
  have hall : text.takeWhile p ++ text.dropWhile p = text := List.takeWhile_append_dropWhile
  nth_rewrite 2 [← hall]
  exact List.drop_left

namespace Scanner

/-- The scanner at the same place, with more text behind. -/
def append (s : Scanner) (behind : List Char) : Scanner :=
  { s with rest := s.rest ++ behind }

/-- The scanner at the same place of a text that stands a number of characters further on. -/
def shift (s : Scanner) (n line : Nat) : Scanner :=
  ⟨s.rest, s.offset + n, line⟩

/-- A scanner finds what is munched behind the gap. -/
theorem scan_of_munch {s : Scanner} {c : Char} {rest : List Char} {k : Kind} {n : Nat}
    (hrest : s.rest.drop (gap s.rest) = c :: rest) (h : munch (c :: rest) = some (k, n)) :
    s.scan = .lexeme ⟨k, String.ofList ((c :: rest).take n), s.line, s.offset + gap s.rest⟩
      ⟨(c :: rest).drop n, s.offset + gap s.rest + n,
        s.line + if k = .newline then n else 0⟩ := by
  simp only [scan, skip, hrest, h]

/-- A token that a scanner finds was munched behind the gap, and tells where the scanner stands. -/
theorem exists_of_scan {s next : Scanner} {t : Lexeme} (h : s.scan = .lexeme t next) :
    ∃ c rest k n, s.rest.drop (gap s.rest) = c :: rest ∧ munch (c :: rest) = some (k, n) ∧
      t = ⟨k, String.ofList ((c :: rest).take n), s.line, s.offset + gap s.rest⟩ ∧
      next = ⟨(c :: rest).drop n, s.offset + gap s.rest + n,
        s.line + if k = .newline then n else 0⟩ := by
  obtain ⟨c, rest, n, hrest, hmunch, -, -⟩ := exists_munch_of_scan h
  obtain ⟨ht, hnext⟩ := Scan.lexeme.inj ((scan_of_munch hrest hmunch).symm.trans h)
  exact ⟨c, rest, t.kind, n, hrest, hmunch, ht.symm, hnext.symm⟩

/-- At the end nothing is left behind the gap. -/
theorem drop_gap_of_finished {s next : Scanner} (h : s.scan = .finished next) :
    s.rest.drop (gap s.rest) = [] := by
  unfold scan at h
  dsimp only at h
  split at h
  · rename_i heq
    exact heq
  · split at h <;> exact absurd h (by simp)

theorem exists_scan_finished {s : Scanner} (h : s.rest.drop (gap s.rest) = []) :
    ∃ next, s.scan = .finished next := by
  refine ⟨(s.skip (gap s.rest)).skip 1, ?_⟩
  simp only [scan, skip, h]

theorem gap_le (text : List Char) : gap text ≤ text.length := by
  have hcomment (text : List Char) : commentLength text ≤ text.length := by
    unfold commentLength
    split
    · rename_i rest
      have hle : (rest.takeWhile (· ≠ '\n')).length ≤ rest.length :=
        (List.takeWhile_sublist _).length_le
      rw [List.length_cons]
      omega
    · exact Nat.zero_le _
  have hblanks : (text.takeWhile isBlank).length ≤ text.length :=
    (List.takeWhile_sublist _).length_le
  have hle := hcomment (text.drop (text.takeWhile isBlank).length)
  rw [List.length_drop] at hle
  rw [gap]
  omega

/-- A scanner takes what lies between it and the next, and so comes closer to the end. -/
theorem place_of_scan {s next : Scanner} {t : Lexeme} (h : s.scan = .lexeme t next) :
    next.offset + next.rest.length = s.offset + s.rest.length ∧
      t.offset ≤ s.offset + s.rest.length := by
  obtain ⟨c, rest, k, n, hrest, hmunch, rfl, rfl⟩ := exists_of_scan h
  have hle := (munch_length hmunch).2.1
  have hgap := gap_le s.rest
  have hlength := congrArg List.length hrest
  rw [List.length_drop] at hlength
  simp only [List.length_drop]
  omega

/-- In front of a newline a scanner finds what it finds at the end of the text, unless that is a
line end that reaches it. -/
theorem scan_append_newline {s next : Scanner} {t : Lexeme} (h : s.scan = .lexeme t next)
    (hend : t.kind = .newline → next.rest ≠ []) (behind : List Char) :
    (s.append ('\n' :: behind)).scan = .lexeme t (next.append ('\n' :: behind)) := by
  obtain ⟨c, rest, k, n, hrest, hmunch, rfl, rfl⟩ := exists_of_scan h
  obtain ⟨-, hle, hkind⟩ := munch_length hmunch
  have hgap : gap (s.rest ++ '\n' :: behind) = gap s.rest := gap_append_newline _ _
  have hmunch' : munch (c :: (rest ++ '\n' :: behind)) = some (k, n) := by
    rw [← hmunch]
    by_cases hc : c = '\n'
    · -- a run of newlines would take in the one that follows, but does not reach it
      subst hc
      rw [if_pos rfl] at hkind
      refine munch_newline_append _ ?_
      have hn : (('\n' :: rest).takeWhile (· = '\n')).length = n := by
        rw [munch, if_pos rfl] at hmunch
        exact congrArg Prod.snd (Option.some.inj hmunch)
      rw [hn]
      exact Nat.lt_of_not_ge fun hge ↦ hend hkind (List.drop_eq_nil_of_le hge)
    · exact munch_append_newline behind hc rest
  have hrest' : (s.rest ++ '\n' :: behind).drop (gap (s.rest ++ '\n' :: behind)) =
      c :: (rest ++ '\n' :: behind) := by
    rw [hgap, List.drop_append_of_le_length (gap_le _), hrest, List.cons_append]
  rw [scan_of_munch (s := s.append ('\n' :: behind)) hrest' hmunch', append, append, hgap,
    ← List.cons_append, List.take_append_of_le_length hle, List.drop_append_of_le_length hle]

/-- Further on, a scanner finds the same there. -/
theorem exists_scan_shift {s next : Scanner} {t : Lexeme} (h : s.scan = .lexeme t next)
    (n line : Nat) :
    ∃ line', (s.shift n line).scan =
      .lexeme { t with line := line, offset := t.offset + n } (next.shift n line') := by
  obtain ⟨c, rest, k, m, hrest, hmunch, rfl, rfl⟩ := exists_of_scan h
  refine ⟨line + if k = .newline then m else 0, ?_⟩
  rw [scan_of_munch (s := s.shift n line) hrest hmunch]
  simp only [shift, Scan.lexeme.injEq, Lexeme.mk.injEq, Scanner.mk.injEq, true_and, and_true]
  omega

/-- A line end that reaches the end of the text has only line ends behind the gap. -/
theorem newlines_of_scan {s next : Scanner} {t : Lexeme} (h : s.scan = .lexeme t next)
    (hkind : t.kind = .newline) (hnext : next.rest = []) :
    ∀ c ∈ s.rest.drop (gap s.rest), c = '\n' := by
  obtain ⟨c, rest, k, n, hrest, hmunch, rfl, rfl⟩ := exists_of_scan h
  have hk := (munch_length hmunch).2.2
  split at hk
  · rename_i hc
    rw [munch, if_pos hc] at hmunch
    have hn : ((c :: rest).takeWhile (· = '\n')).length = n :=
      congrArg Prod.snd (Option.some.inj hmunch)
    have hall : (c :: rest).takeWhile (· = '\n') = c :: rest :=
      (List.takeWhile_prefix _).eq_of_length_le (hn ▸ List.drop_eq_nil_iff.1 hnext)
    rw [hrest]
    simpa using List.takeWhile_eq_self_iff.1 hall
  · rw [show k = .newline from hkind] at hk
    exact absurd hk (by decide)

/-- All newlines in a row are one line end. -/
theorem exists_scan_newline (rest : List Char) (offset line : Nat) :
    ∃ t : Lexeme, t.kind = .newline ∧ scan ⟨'\n' :: rest, offset, line⟩ = .lexeme t
      ⟨rest.dropWhile (· = '\n'), offset + 1 + (rest.takeWhile (· = '\n')).length,
        line + 1 + (rest.takeWhile (· = '\n')).length⟩ := by
  have hgap : gap ('\n' :: rest) = 0 := gap_append_newline [] rest
  have hmunch : munch ('\n' :: rest) =
      some (.newline, (rest.takeWhile (· = '\n')).length + 1) := by
    rw [munch, if_pos rfl, List.takeWhile_cons_of_pos (by simp), List.length_cons]
  have hscan := scan_of_munch (s := ⟨'\n' :: rest, offset, line⟩) (by rw [hgap]; rfl) hmunch
  have hplace (m : Nat) : m + ((rest.takeWhile (· = '\n')).length + 1) =
      m + 1 + (rest.takeWhile (· = '\n')).length := by omega
  simp only [List.drop_succ_cons, drop_length_takeWhile, hgap, if_true, Nat.add_zero,
    hplace] at hscan
  exact ⟨_, by rfl, hscan⟩

/-- Where only line ends are left, they become one with the seam and those behind it. -/
theorem exists_scan_seam {s : Scanner} (h : ∀ c ∈ s.rest.drop (gap s.rest), c = '\n')
    (back : List Char) :
    ∃ t line, t.kind = .newline ∧ (s.append ('\n' :: back)).scan = .lexeme t
      ⟨back.dropWhile (· = '\n'),
        (back.takeWhile (· = '\n')).length + (s.offset + s.rest.length + 1), line⟩ := by
  have hgap : gap (s.rest ++ '\n' :: back) = gap s.rest := gap_append_newline _ _
  have hle := gap_le s.rest
  have hlength : (s.rest.drop (gap s.rest)).length = s.rest.length - gap s.rest :=
    List.length_drop
  have hdrop : (s.rest ++ '\n' :: back).drop (gap (s.rest ++ '\n' :: back)) =
      s.rest.drop (gap s.rest) ++ '\n' :: back := by
    rw [hgap, List.drop_append_of_le_length hle]
  generalize s.rest.drop (gap s.rest) = ends at h hlength hdrop
  have htake : (ends ++ '\n' :: back).takeWhile (· = '\n') =
      ends ++ '\n' :: back.takeWhile (· = '\n') := by
    rw [List.takeWhile_append_of_pos (by simpa using h), List.takeWhile_cons_of_pos (by simp)]
  have hcut : (ends ++ '\n' :: back).drop ((ends ++ '\n' :: back).takeWhile (· = '\n')).length =
      back.dropWhile (· = '\n') := by
    rw [drop_length_takeWhile, List.dropWhile_append_of_pos (by simpa using h),
      List.dropWhile_cons_of_pos (by simp)]
  obtain ⟨c, rest, hrest, hc⟩ : ∃ c rest, ends ++ '\n' :: back = c :: rest ∧ c = '\n' := by
    cases ends with
    | nil => exact ⟨_, _, rfl, rfl⟩
    | cons c ends => exact ⟨_, _, rfl, h c List.mem_cons_self⟩
  have hmunch : munch (c :: rest) =
      some (.newline, ((c :: rest).takeWhile (· = '\n')).length) := by
    rw [munch, if_pos hc]
  have hoffset : s.offset + gap (s.rest ++ '\n' :: back) +
      ((c :: rest).takeWhile (· = '\n')).length =
        (back.takeWhile (· = '\n')).length + (s.offset + s.rest.length + 1) := by
    rw [hgap, ← hrest, htake, List.length_append, List.length_cons]
    omega
  rw [hrest] at hdrop hcut
  rw [scan_of_munch (s := s.append ('\n' :: back)) hdrop hmunch, hcut]
  refine ⟨_, _, ?_, congrArg (fun offset ↦ Scan.lexeme _ ⟨_, offset, _⟩) hoffset⟩
  rfl

end Scanner

/-! ### Layouts in joined sources -/

/-- Whether line ends come to nothing in a layout. -/
def Layout.Skips (l : Layout) : Prop :=
  0 < l.depth ∨ l.fresh = true

section Layouts

variable {text text' : List Char} {l l' : Layout} {t : Lexeme} {tokens : List Lexeme}

theorem Layout.take_of_skips (h : l.Skips) (hkind : t.kind = .newline) :
    l.take text t = ([], .ok l) := by
  rw [take, if_pos hkind]
  exact if_pos h

theorem Layout.take_of_not_skips (h : ¬l.Skips) (hkind : t.kind = .newline) :
    l.take text t = ([t], .ok { l with fresh := true }) := by
  rw [take, if_pos hkind]
  exact if_neg h

/-- A token that stands inside a line adds itself. -/
theorem Layout.take_inside (hkind : t.kind ≠ .newline) (hfresh : l.fresh = false) :
    l.take text t = ([t], .ok ⟨l.levels, depthAfter l.depth t.kind, false⟩) := by
  rw [take, if_neg hkind, hfresh]
  rfl

/-- Behind a line end, others come to nothing. -/
theorem Layout.skips_of_take (h : l.take text t = (tokens, .ok l')) (hkind : t.kind = .newline) :
    l'.Skips := by
  by_cases hl : l.Skips
  · rw [take_of_skips hl hkind] at h
    obtain rfl := Except.ok.inj (Prod.mk.inj h).2
    exact hl
  · rw [take_of_not_skips hl hkind] at h
    obtain rfl := Except.ok.inj (Prod.mk.inj h).2
    exact .inr rfl

/-- What a lexeme adds stands where it stands. -/
theorem Layout.Takes.offset_eq (h : l.Takes t tokens l') : ∀ u ∈ tokens, u.offset = t.offset := by
  intro u hu
  rcases h.eq_or_unwritten u hu with rfl | rfl | rfl <;> rfl

/-- Blocks that are open are wider than none. -/
theorem Layout.levels_pos_of_take (h : l.take text t = (tokens, .ok l'))
    (hl : ∀ w ∈ l.levels, 0 < w) : ∀ w ∈ l'.levels, 0 < w := by
  unfold take startLine at h
  dsimp only at h
  split at h
  · split at h
    · obtain rfl := Except.ok.inj (Prod.mk.inj h).2
      exact hl
    · obtain rfl := Except.ok.inj (Prod.mk.inj h).2
      exact hl
  · split at h
    · split at h
      · rename_i announced levels heq
        obtain rfl := Except.ok.inj (Prod.mk.inj h).2
        split at heq
        · rename_i hwider
          obtain rfl := Option.some.inj (Prod.mk.inj heq).2
          exact List.forall_mem_cons.2 ⟨Nat.zero_lt_of_lt hwider, hl⟩
        · have hlevels := (Prod.mk.inj heq).2
          split at hlevels
          · obtain rfl := Option.some.inj hlevels
            exact fun w hw ↦ hl w ((List.dropWhile_sublist _).subset hw)
          · exact absurd hlevels (by simp)
      · exact absurd (Prod.mk.inj h).2 (by simp)
    · obtain rfl := Except.ok.inj (Prod.mk.inj h).2
      exact hl

/-- A line at the start of its source closes all blocks. -/
theorem Layout.startLine_zero {levels : List Nat} (h : ∀ w ∈ levels, 0 < w) (t : Lexeme) :
    startLine levels 0 t = (levels.map fun _ ↦ unwritten .dedent t, some []) := by
  have hall : ∀ w ∈ levels, decide (0 < w) = true := fun w hw ↦ decide_eq_true (h w hw)
  have htake : levels.takeWhile (0 < ·) = levels := List.takeWhile_eq_self_iff.2 hall
  have hdrop : levels.dropWhile (0 < ·) = [] := List.dropWhile_eq_nil_iff.2 hall
  rw [startLine, if_neg (Nat.not_lt_zero _), htake, hdrop]
  rfl

/-- A token at the start of its source closes all blocks and adds itself. -/
theorem Layout.take_of_width_eq_zero {levels : List Nat} (hlevels : ∀ w ∈ levels, 0 < w)
    (hkind : t.kind ≠ .newline) (hwidth : indentWidth text t.offset = 0) (depth : Nat) :
    take text ⟨levels, depth, true⟩ t =
      ((levels.map fun _ ↦ unwritten .dedent t) ++ [t],
        .ok ⟨[], depthAfter depth t.kind, false⟩) := by
  rw [take, if_neg hkind]
  dsimp only
  rw [if_pos rfl, hwidth, startLine_zero hlevels]

/-- Without open blocks, a token further to the right opens one. -/
theorem Layout.take_initial_of_width_ne_zero (hkind : t.kind ≠ .newline)
    (hwidth : indentWidth text t.offset ≠ 0) :
    ∃ l, initial.take text t = ([unwritten .indent t, t], .ok l) := by
  refine ⟨⟨[indentWidth text t.offset], depthAfter 0 t.kind, false⟩, ?_⟩
  have hstart : startLine [] (indentWidth text t.offset) t =
      ([unwritten .indent t], some [indentWidth text t.offset]) := by
    rw [startLine]
    exact if_pos (Nat.pos_of_ne_zero hwidth)
  simp only [take, if_neg hkind, initial, if_pos, hstart]
  rfl

/-- A lexeme at another place, with what it adds. -/
def Lexeme.moved (line offset : Nat) (t : Lexeme) : Lexeme :=
  { t with line := line, offset := offset }

theorem Layout.startLine_moved (levels : List Nat) (width : Nat) (t : Lexeme) (line offset : Nat) :
    startLine levels width (t.moved line offset) =
      ((startLine levels width t).1.map (·.moved line offset), (startLine levels width t).2) := by
  unfold startLine
  split
  · rfl
  · rw [List.map_map]
    rfl

/-- At a place as far from the start of its line, a lexeme adds the same. -/
theorem Layout.take_moved (l : Layout) {line offset : Nat}
    (h : t.kind ≠ .newline → l.fresh = true →
      indentWidth text' offset = indentWidth text t.offset) :
    l.take text' (t.moved line offset) =
      ((l.take text t).1.map (·.moved line offset), (l.take text t).2) := by
  unfold take
  simp only [startLine_moved, show (t.moved line offset).offset = offset from rfl,
    show (t.moved line offset).kind = t.kind from rfl]
  split
  · split <;> rfl
  · rename_i hkind
    split
    · rename_i hfresh
      rw [h hkind hfresh]
      rcases startLine l.levels (indentWidth text t.offset) t with ⟨announced, - | levels⟩
      · rfl
      · simp
    · rfl

end Layouts

/-! ### Tokens that take each other's place -/

section Alike

variable {f : Position → Position} {text text' : List Char}

/-- Tokens that are not written inside a line are alike if they are of one kind. -/
theorem Lexeme.alike_of_not_isWord {t t' : Lexeme} (hkind : t'.kind = t.kind)
    (h : t.kind.isWord = false) : t.Alike f text text' t' :=
  ⟨hkind, fun hword ↦ absurd (h.symm.trans hword) (by decide),
    fun hword ↦ absurd (h.symm.trans hword) (by decide)⟩

theorem forall₂_alike_of_kinds {ts us : List Lexeme} (h : us.map (·.kind) = ts.map (·.kind))
    (hts : ∀ k ∈ ts.map (·.kind), k.isWord = false) :
    List.Forall₂ (Lexeme.Alike f text text') ts us := by
  induction ts generalizing us with
  | nil =>
    obtain rfl := List.map_eq_nil_iff.1 h
    exact .nil
  | cons t ts ih =>
    obtain ⟨u, us, rfl, hu, hus⟩ := List.map_eq_cons_iff.1 h
    rw [List.map_cons, List.forall_mem_cons] at hts
    exact .cons (Lexeme.alike_of_not_isWord hu hts.1) (ih hus hts.2)

/-- The kinds of token that the end of a source adds. -/
def Layout.closeKinds (l : Layout) : List Kind :=
  (if l.fresh then [] else [.newline]) ++ l.levels.map fun _ ↦ .dedent

theorem Layout.map_kind_close (l : Layout) (line offset : Nat) :
    (l.close line offset).map (·.kind) = l.closeKinds := by
  rw [close, closeKinds, List.map_append, List.map_map]
  congr 1
  split <;> rfl

theorem Layout.isWord_of_mem_closeKinds (l : Layout) : ∀ k ∈ l.closeKinds, k.isWord = false := by
  intro k hk
  rcases List.mem_append.1 hk with hk | hk
  · split at hk
    · exact absurd hk List.not_mem_nil
    · rw [List.mem_singleton.1 hk]
      rfl
  · obtain ⟨w, -, rfl⟩ := List.mem_map.1 hk
    rfl

/-- What does not stand inside a line does not open or close parentheses. -/
theorem openParens_of_not_isWord (depth : Nat) {ks : List Kind}
    (h : ∀ k ∈ ks, k.isWord = false) : openParens depth ks = depth := by
  induction ks with
  | nil => rfl
  | cons k ks ih =>
    rw [List.forall_mem_cons] at h
    refine Eq.trans ?_ (ih h.2)
    cases k <;> first | rfl | exact absurd h.1 (by simp [Kind.isWord])

/-- The end of a source does not open or close parentheses. -/
theorem openParens_closeKinds (depth : Nat) (l : Layout) :
    openParens depth l.closeKinds = depth :=
  openParens_of_not_isWord depth l.isWord_of_mem_closeKinds

end Alike

/-! ### What is delivered of joined sources -/

section Joining

variable {front back : List Char}

/-- A token of the second of two sources is read alike one that stands behind the first. -/
abbrev Lexeme.AlikeBehind (front back : List Char) : Lexeme → Lexeme → Prop :=
  Alike (.down (1 + front.count '\n')) back (front ++ '\n' :: back)

/-- A token in front of the seam takes its own place. -/
theorem Lexeme.alike_front {t : Lexeme} (h : t.offset ≤ front.length) (behind : List Char) :
    t.Alike id front (front ++ behind) t :=
  ⟨rfl, fun _ ↦ rfl, fun _ ↦ Position.ofOffset_front h behind⟩

/-- A token behind the seam takes its place further down. -/
theorem Lexeme.alike_back {t : Lexeme} {line offset : Nat} (h : t.offset = offset) :
    t.AlikeBehind front back (t.moved line (offset + (front.length + 1))) :=
  ⟨rfl, fun _ ↦ rfl, fun _ ↦ h ▸ Position.ofOffset_back front back t.offset⟩

theorem Layout.take_front {l : Layout} {t : Lexeme} (h : t.offset ≤ front.length)
    (behind : List Char) : l.take (front ++ behind) t = l.take front t := by
  unfold take
  rw [indentWidth, indentWidth, lineBefore_front h]

/-- Behind the seam, what a lexeme adds takes its place further down. -/
theorem Layout.exists_take_back {l l' : Layout} {t : Lexeme} {tokens : List Lexeme}
    (h : l.take back t = (tokens, .ok l')) (line : Nat) :
    ∃ tokens', l.take (front ++ '\n' :: back) (t.moved line (t.offset + (front.length + 1))) =
        (tokens', .ok l') ∧
      List.Forall₂ (Lexeme.AlikeBehind front back) tokens tokens' := by
  have hwidth : indentWidth (front ++ '\n' :: back) ((t.offset + (front.length + 1) : Nat) : Int) =
      indentWidth back t.offset := by
    rw [indentWidth, indentWidth, lineBefore_back]
  refine ⟨_, (take_moved l fun _ _ ↦ hwidth).trans (by rw [h]), ?_⟩
  rw [List.forall₂_map_right_iff, List.forall₂_same]
  exact fun u hu ↦ Lexeme.alike_back ((takes_of_take h).offset_eq u hu)

variable (front) in
/-- Behind the seam, the same is delivered, further down. -/
theorem Delivers.exists_shift {s : Scanner} {l : Layout} {ts : List Lexeme}
    (h : Delivers back s l ts) (line : Nat) :
    ∃ us, List.Forall₂ (Lexeme.AlikeBehind front back) ts us ∧
      Delivers (front ++ '\n' :: back) (s.shift (front.length + 1) line) l us := by
  induction h generalizing line with
  | @finished s next l hs =>
    have hrest := Scanner.drop_gap_of_finished hs
    obtain ⟨next', hs'⟩ :=
      Scanner.exists_scan_finished (s := s.shift (front.length + 1) line) hrest
    refine ⟨_, forall₂_alike_of_kinds ?_ ?_, .finished hs'⟩
    · rw [Layout.map_kind_close, Layout.map_kind_close]
    · rw [Layout.map_kind_close]
      exact l.isWord_of_mem_closeKinds
  | lexeme hs ht _ ih =>
    obtain ⟨line', hs'⟩ := Scanner.exists_scan_shift hs (front.length + 1) line
    obtain ⟨tokens', ht', htokens⟩ := Layout.exists_take_back ht line
    obtain ⟨us, hus, hlater⟩ := ih line'
    exact ⟨tokens' ++ us, List.rel_append htokens hus, .lexeme hs' ht' hlater⟩

/-- The first token behind the seam closes the blocks that are open there. -/
theorem Delivers.exists_resumed {s : Scanner} {ts : List Lexeme}
    (h : Delivers back s .initial ts) (hbegins : ∃ t ∈ ts.head?, t.kind ≠ .indent)
    {levels : List Nat} (hlevels : ∀ w ∈ levels, 0 < w) (line : Nat) :
    ∃ t us,
      List.Forall₂ (Lexeme.AlikeBehind front back) ts us ∧
      Delivers (front ++ '\n' :: back) (s.shift (front.length + 1) line) ⟨levels, 0, true⟩
        ((levels.map fun _ ↦ Layout.unwritten .dedent t) ++ us) := by
  -- the blocks that are open wait for the first token that is no line end
  generalize hl : Layout.initial = l at h
  induction h generalizing line with
  | finished hs =>
    subst hl
    obtain ⟨t, ht, -⟩ := hbegins
    exact absurd ht (by simp [Layout.close, Layout.initial])
  | @lexeme s next l l' t tokens rest hs ht hlater ih =>
    subst hl
    obtain ⟨line', hs'⟩ := Scanner.exists_scan_shift hs (front.length + 1) line
    by_cases hkind : t.kind = .newline
    · -- line ends in front of the first token are passed over
      obtain ⟨rfl, hl'⟩ := Prod.mk.inj ((by simp [Layout.take, hkind, Layout.initial] :
        Layout.initial.take back t = ([], .ok .initial)).symm.trans ht)
      obtain ⟨u, us, hus, hlater'⟩ := ih (by simpa using hbegins) line' (Except.ok.inj hl')
      have ht' : Layout.take (front ++ '\n' :: back) ⟨levels, 0, true⟩
          (t.moved line (t.offset + (front.length + 1))) = ([], .ok ⟨levels, 0, true⟩) := by
        simp [Layout.take, Lexeme.moved, hkind]
      refine ⟨u, us, hus, ?_⟩
      rw [← List.nil_append (_ ++ us)]
      exact .lexeme hs' ht' hlater'
    · by_cases hwidth : indentWidth back t.offset = 0
      · obtain ⟨rfl, hl'⟩ := Prod.mk.inj ((Layout.take_of_width_eq_zero (List.forall_mem_nil _)
          hkind hwidth 0).symm.trans ht)
        obtain rfl := Except.ok.inj hl'
        have hwidth' : indentWidth (front ++ '\n' :: back)
            ((t.offset + (front.length + 1) : Nat) : Int) = 0 := by
          rwa [indentWidth, lineBefore_back]
        obtain ⟨us, hus, hlater'⟩ := hlater.exists_shift front line'
        refine ⟨t.moved line (t.offset + (front.length + 1)), t.moved line _ :: us,
          .cons (Lexeme.alike_back rfl) hus, ?_⟩
        have ht' := Layout.take_of_width_eq_zero
          (t := t.moved line (t.offset + (front.length + 1))) hlevels hkind hwidth' 0
        rw [List.append_cons (levels.map _)]
        exact .lexeme hs' ht' hlater'
      · -- a token further to the right would start a block
        obtain ⟨l, hindent⟩ := Layout.take_initial_of_width_ne_zero hkind hwidth
        obtain ⟨rfl, -⟩ := Prod.mk.inj (hindent.symm.trans ht)
        obtain ⟨u, hu, hne⟩ := hbegins
        obtain rfl := Option.some.inj hu
        exact absurd rfl hne

/-- Line ends that come to nothing can be taken away. -/
theorem Delivers.dropWhile_newline {s : Scanner} {l : Layout} {ts : List Lexeme}
    (h : Delivers text s l ts) (hl : l.Skips) :
    Delivers text ⟨s.rest.dropWhile (· = '\n'), s.offset + (s.rest.takeWhile (· = '\n')).length,
      s.line + (s.rest.takeWhile (· = '\n')).length⟩ l ts := by
  obtain ⟨rest, offset, line⟩ := s
  rcases rest with - | ⟨c, rest⟩
  · exact h
  · by_cases hc : c = '\n'
    · subst hc
      obtain ⟨t, hkind, hscan⟩ := Scanner.exists_scan_newline rest offset line
      cases h with
      | finished hs => exact absurd (hs.symm.trans hscan) (by simp)
      | lexeme hs ht hlater =>
        obtain ⟨rfl, rfl⟩ := Scan.lexeme.inj (hscan.symm.trans hs)
        obtain ⟨rfl, hl'⟩ := Prod.mk.inj (ht.symm.trans (Layout.take_of_skips hl hkind))
        obtain rfl := Except.ok.inj hl'
        have hplace (m : Nat) : m + ((rest.takeWhile (· = '\n')).length + 1) =
            m + 1 + (rest.takeWhile (· = '\n')).length := by omega
        simp only [List.takeWhile_cons_of_pos, List.dropWhile_cons_of_pos, decide_true,
          List.length_cons, List.nil_append, hplace]
        exact hlater
    · have hdrop : (c :: rest).dropWhile (· = '\n') = c :: rest :=
        List.dropWhile_cons_of_neg (by simpa using hc)
      have htake : (c :: rest).takeWhile (· = '\n') = [] :=
        List.takeWhile_cons_of_neg (by simpa using hc)
      rw [hdrop, htake]
      exact h

variable (front) in
/-- The blocks that are open at the seam are closed behind it, and what the second source delivers
follows. -/
theorem Delivers.exists_behind {ts : List Lexeme} (h : Delivers back (.ofText back) .initial ts)
    (hbegins : ∃ t ∈ ts.head?, t.kind ≠ .indent) {levels : List Nat} (hlevels : ∀ w ∈ levels, 0 < w)
    (line : Nat) :
    ∃ t us,
      List.Forall₂ (Lexeme.AlikeBehind front back) ts us ∧
      Delivers (front ++ '\n' :: back)
        ⟨back.dropWhile (· = '\n'), (back.takeWhile (· = '\n')).length + (front.length + 1), line⟩
        ⟨levels, 0, true⟩ ((levels.map fun _ ↦ Layout.unwritten .dedent t) ++ us) := by
  have hdrop := h.dropWhile_newline (.inr rfl)
  rw [Scanner.ofText, Nat.zero_add] at hdrop
  exact hdrop.exists_resumed hbegins hlevels line

variable {s : Scanner} {l : Layout} {ts ts' : List Lexeme}

/-- At the seam the line and the blocks that are open are closed, as at the end of the source. -/
theorem Delivers.exists_seam (h : Delivers back (.ofText back) .initial ts')
    (hbegins : ∃ t ∈ ts'.head?, t.kind ≠ .indent)
    (hends : ∀ c ∈ s.rest.drop (gap s.rest), c = '\n')
    (hplace : s.offset + s.rest.length = front.length) (hlevels : ∀ w ∈ l.levels, 0 < w)
    (hdepth : l.depth = 0) :
    ∃ us us', us.map (·.kind) = l.closeKinds ∧
      List.Forall₂ (Lexeme.AlikeBehind front back) ts' us' ∧
      Delivers (front ++ '\n' :: back) (s.append ('\n' :: back)) l (us ++ us') := by
  obtain ⟨t, line, hkind, hs⟩ := Scanner.exists_scan_seam hends back
  rw [hplace] at hs
  obtain ⟨u, us', hus', hlater⟩ := h.exists_behind front hbegins hlevels line
  obtain ⟨levels, depth, fresh⟩ := l
  obtain rfl : depth = 0 := hdepth
  refine ⟨(if fresh then [] else [t]) ++ levels.map fun _ ↦ Layout.unwritten .dedent u, us', ?_,
    hus', ?_⟩
  · rw [Layout.closeKinds, List.map_append, List.map_map]
    congr 1
    cases fresh
    · exact congrArg ([·]) hkind
    · rfl
  · -- the newline ends the line that was begun, and is skipped if none was
    rw [List.append_assoc]
    refine .lexeme hs ?_ hlater
    cases fresh <;> simp [Layout.take, hkind]

/-- Behind the last token of a source that is a line end, the end of the source adds what is left of
what it would have added without it. -/
theorem Layout.closeKinds_of_take {t : Lexeme} {tokens : List Lexeme} {l' : Layout}
    (h : l.take front t = (tokens, .ok l')) (hkind : t.kind = .newline) (hdepth : l'.depth = 0) :
    tokens.map (·.kind) ++ l'.closeKinds = l.closeKinds ∧ l.depth = 0 := by
  obtain ⟨levels, depth, fresh⟩ := l
  rw [take, if_pos hkind] at h
  split at h
  · rename_i hskip
    obtain ⟨rfl, hl⟩ := Prod.mk.inj h
    obtain rfl := Except.ok.inj hl
    exact ⟨rfl, hdepth⟩
  · rename_i hnot
    obtain ⟨rfl, hl⟩ := Prod.mk.inj h
    obtain rfl := Except.ok.inj hl
    rw [not_or, Bool.not_eq_true] at hnot
    refine ⟨?_, hdepth⟩
    simp [closeKinds, hkind, show fresh = false from hnot.2]

/-- In front of the seam the same is delivered at the same places, and behind it what the second
source delivers. -/
theorem Delivers.exists_joined (h : Delivers front s l ts)
    (h' : Delivers back (.ofText back) .initial ts') (hbegins : ∃ t ∈ ts'.head?, t.kind ≠ .indent)
    (hplace : s.offset + s.rest.length = front.length) (hlevels : ∀ w ∈ l.levels, 0 < w)
    (hdepth : openParens l.depth (ts.map (·.kind)) = 0) :
    ∃ us us', List.Forall₂ (Lexeme.Alike id front (front ++ '\n' :: back)) ts us ∧
      List.Forall₂ (Lexeme.AlikeBehind front back) ts' us' ∧
      Delivers (front ++ '\n' :: back) (s.append ('\n' :: back)) l (us ++ us') := by
  -- along what the first source delivers; its end is the seam
  induction h with
  | @finished s next l hs =>
    have hrest := Scanner.drop_gap_of_finished hs
    have hclose := l.map_kind_close next.line front.length
    rw [hclose, openParens_closeKinds] at hdepth
    obtain ⟨us, us', hus, hus', hall⟩ := h'.exists_seam hbegins
      (by rw [hrest]; exact List.forall_mem_nil _) hplace hlevels hdepth
    refine ⟨us, us', forall₂_alike_of_kinds (hus.trans hclose.symm) ?_, hus', hall⟩
    rw [hclose]
    exact l.isWord_of_mem_closeKinds
  | @lexeme s next l l' t tokens rest hs ht hlater ih =>
    have htakes := Layout.takes_of_take ht
    obtain ⟨hplace', hoffset⟩ := Scanner.place_of_scan hs
    rw [hplace] at hplace' hoffset
    rw [List.map_append, openParens_append, htakes.openParens_eq] at hdepth
    by_cases hend : t.kind = .newline → next.rest ≠ []
    · obtain ⟨us, us', hus, hus', hall⟩ :=
        ih hplace' (Layout.levels_pos_of_take ht hlevels) hdepth
      refine ⟨tokens ++ us, us', List.rel_append ?_ hus, hus', ?_⟩
      · rw [List.forall₂_same]
        exact fun u hu ↦ Lexeme.alike_front (htakes.offset_eq u hu ▸ hoffset) _
      · rw [List.append_assoc]
        exact .lexeme (Scanner.scan_append_newline hs hend back)
          ((Layout.take_front hoffset _).trans ht) hall
    · -- the line ends reach the seam, and there is nothing left to deliver
      obtain ⟨hkind, hnil⟩ : t.kind = .newline ∧ next.rest = [] := by
        simpa only [Classical.not_imp, not_not] using hend
      obtain ⟨next', rfl⟩ : ∃ next', rest = l'.close (Scanner.line next') front.length := by
        cases hlater with
        | finished hs' => exact ⟨_, rfl⟩
        | lexeme hs' _ _ =>
          have hlt := Scanner.length_lt_of_scan hs'
          rw [hnil] at hlt
          exact absurd hlt (Nat.not_lt_zero _)
      rw [Layout.map_kind_close, openParens_closeKinds] at hdepth
      obtain ⟨hclose, hzero⟩ := Layout.closeKinds_of_take ht hkind hdepth
      have hkinds : (tokens ++ l'.close next'.line front.length).map (·.kind) = l.closeKinds := by
        rw [List.map_append, Layout.map_kind_close, hclose]
      obtain ⟨us, us', hus, hus', hall⟩ := h'.exists_seam hbegins
        (Scanner.newlines_of_scan hs hkind hnil) hplace hlevels hzero
      refine ⟨us, us', forall₂_alike_of_kinds (hus.trans hkinds.symm) ?_, hus', hall⟩
      rw [hkinds]
      exact l.isWord_of_mem_closeKinds

/-- The tokens of two sources with a newline between them are those of the first and then those of
the second, if the first closes its parentheses and the second begins at the start of a line. -/
theorem Delivers.join (h : Delivers front (.ofText front) .initial ts)
    (h' : Delivers back (.ofText back) .initial ts') (hbegins : ∃ t ∈ ts'.head?, t.kind ≠ .indent)
    (hbalance : openParens 0 (ts.map (·.kind)) = 0) :
    ∃ us us', List.Forall₂ (Lexeme.Alike id front (front ++ '\n' :: back)) ts us ∧
      List.Forall₂ (Lexeme.AlikeBehind front back) ts' us' ∧
      Delivers (front ++ '\n' :: back) (.ofText (front ++ '\n' :: back)) .initial (us ++ us') :=
  h.exists_joined h' hbegins (Nat.zero_add _) (List.forall_mem_nil _) hbalance

end Joining

end Sangria
