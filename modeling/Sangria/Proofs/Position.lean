import Sangria.Position

/-!
# Positions in texts

What is known of the positions of offsets: in texts that are put together
(`Position.ofOffset_front`, `Position.ofOffset_back`, `Position.ofOffset_append`), where a line is
put in or broken (`Position.lowered`, `Position.broken`), and in one text, where positions stand in
the order of their offsets (`Position.before_of_lt`).

The offsets of a text and the positions that lie in it are two ways to say the same
(`Position.ofOffset_order_isomorphism`): each offset has a position of its own, which lies in the
text, each position in the text is that of an offset, and both are ordered alike. The way back goes
by the start of a line (`lineStart`), which is counted without any position. Both ways are read off
one cut of the text, behind the last newline before the place (`exists_append_of_endsLine`).
-/

namespace Sangria

/-! ### Texts with a newline between them -/

/-- A position a number of lines further down. -/
def Position.down (n : Nat) (p : Position) : Position :=
  { p with line := p.line + n }

section Places

variable {front back : List Char}

theorem before_natCast (text : List Char) (k : Nat) : before text k = text.take k := by
  rw [before, fromStart, if_neg (by omega), Int.toNat_natCast]

theorem before_front {k : Nat} (h : k ≤ front.length) (behind : List Char) :
    before (front ++ behind) k = before front k := by
  rw [before_natCast, before_natCast, List.take_append_of_le_length h]

theorem before_back (front back : List Char) (k : Nat) :
    before (front ++ '\n' :: back) ((k + (front.length + 1) : Nat) : Int) =
      front ++ '\n' :: before back k := by
  rw [before_natCast, before_natCast, Nat.add_comm k, Nat.add_assoc, List.take_length_add_append,
    Nat.add_comm 1, List.take_succ_cons]

theorem lineBefore_front {k : Nat} (h : k ≤ front.length) (behind : List Char) :
    lineBefore (front ++ behind) k = lineBefore front k := by
  rw [lineBefore_eq, lineBefore_eq, before_front h]

/-- A line goes back to the seam at most. -/
theorem lineBefore_back (front back : List Char) (k : Nat) :
    lineBefore (front ++ '\n' :: back) ((k + (front.length + 1) : Nat) : Int) =
      lineBefore back k := by
  rw [lineBefore_eq, lineBefore_eq, before_back, List.reverse_append, List.reverse_cons,
    List.append_assoc, List.singleton_append, takeWhile_append_newline]

theorem Position.ofOffset_front {k : Nat} (h : k ≤ front.length) (behind : List Char) :
    ofOffset (front ++ behind) k = ofOffset front k := by
  rw [ofOffset_eq, ofOffset_eq, before_front h, lineBefore_front h]

theorem Position.ofOffset_back (front back : List Char) (k : Nat) :
    ofOffset (front ++ '\n' :: back) ((k + (front.length + 1) : Nat) : Int) =
      down (1 + front.count '\n') (ofOffset back k) := by
  rw [ofOffset_eq, ofOffset_eq, before_back, lineBefore_back, down, List.count_append,
    List.count_cons_self, List.length_append, List.length_cons]
  simp only [Position.mk.injEq]
  omega

end Places

/-! ### Lines -/

section Lines

variable {text : List Char} {i j : Nat}

/-- How many newlines lie before an offset. -/
def newlinesBefore (text : List Char) (k : Nat) : Nat :=
  (text.take k).count '\n'

theorem newlinesBefore_le (text : List Char) (h : i ≤ j) :
    newlinesBefore text i ≤ newlinesBefore text j :=
  (List.take_sublist_take_left h).count_le _

theorem newlinesBefore_lt (hi : text[i]? = some '\n') (h : i < j) :
    newlinesBefore text i < newlinesBefore text j := by
  refine Nat.lt_of_lt_of_le ?_ (newlinesBefore_le text h)
  rw [newlinesBefore, newlinesBefore, List.take_add_one, hi, List.count_append]
  exact Nat.lt_add_one _

theorem Position.ofOffset_line (text : List Char) (k : Nat) :
    (ofOffset text k).line = newlinesBefore text k + 1 := by
  rw [ofOffset_eq, before_natCast, newlinesBefore]

end Lines

/-! ### Where something is put in -/

/-- A position in a text that stands behind a place. -/
def Position.after (q p : Position) : Position :=
  if p.line = 1 then ⟨q.line, q.column + p.column - 1⟩ else ⟨q.line + p.line - 1, p.column⟩

/-- A position in a text that has a line put in, with a number of lines above it. -/
def Position.lowered (above : Nat) (p : Position) : Position :=
  if p.line ≤ above then p else p.down 1

/-- A position in a text whose line is broken at a place, with a number of blanks in front of what
stands behind it. -/
def Position.broken (q : Position) (width : Nat) (p : Position) : Position :=
  if p.line < q.line ∨ (p.line = q.line ∧ p.column < q.column) then p
  else if p.line = q.line then ⟨p.line + 1, p.column - q.column + 1 + width⟩
  else p.down 1

/-- Whether a position stands before another, in the same line or in an earlier one. -/
def Position.Before (p q : Position) : Prop :=
  p.line < q.line ∨ (p.line = q.line ∧ p.column < q.column)

namespace Position

theorem line_pos (text : List Char) (k : Nat) : 1 ≤ (ofOffset text k).line := by
  rw [ofOffset_eq]
  dsimp only
  omega

theorem line_le (text : List Char) (k : Nat) : (ofOffset text k).line ≤ text.count '\n' + 1 := by
  have hle : (text.take k).count '\n' ≤ text.count '\n' := (List.take_sublist k text).count_le _
  rw [ofOffset_eq, before_natCast]
  dsimp only
  omega

theorem column_pos (text : List Char) (k : Nat) : 1 ≤ (ofOffset text k).column := by
  have hle : (before text k).length ≤ k := by
    rw [before_natCast, List.length_take]
    exact Nat.min_le_left _ _
  rw [ofOffset_eq]
  dsimp only
  omega

/-- The place behind a text without line ends. -/
theorem ofEnd_of_no_newline {text : List Char} (h : '\n' ∉ text) :
    ofEnd text = ⟨1, text.length + 1⟩ := by
  have hline : '\n' ∉ text.reverse := fun hmem ↦ h (List.mem_reverse.1 hmem)
  rw [ofEnd, ofOffset_eq, lineBefore_eq, before_natCast, List.take_length, List.count_eq_zero.2 h,
    takeWhile_of_no_newline hline, List.length_reverse]
  simp

/-- What stands behind a text stands behind its end. -/
theorem ofOffset_append (front back : List Char) (k : Nat) :
    ofOffset (front ++ back) ((k + front.length : Nat) : Int) =
      (ofEnd front).after (ofOffset back k) := by
  have hbefore :
      before (front ++ back) ((k + front.length : Nat) : Int) = front ++ back.take k := by
    rw [before_natCast, Nat.add_comm, List.take_length_add_append]
  have hend : before front (front.length : Int) = front := by
    rw [before_natCast, List.take_length]
  rw [after, ofEnd, ofOffset_eq, ofOffset_eq, ofOffset_eq, lineBefore_eq, lineBefore_eq,
    lineBefore_eq, hbefore, hend, before_natCast, List.count_append, List.reverse_append,
    List.length_append]
  -- a line that goes back to the seam goes on with the last line in front of it
  by_cases h : '\n' ∈ back.take k
  · have hcount : 0 < (back.take k).count '\n' := List.count_pos_iff.2 h
    obtain ⟨a, b, hab⟩ := List.append_of_mem (List.mem_reverse.2 h)
    rw [hab, List.append_assoc, List.cons_append, takeWhile_append_newline,
      takeWhile_append_newline, if_neg (by dsimp only; omega)]
    simp only [Position.mk.injEq]
    omega
  · have hline : '\n' ∉ (back.take k).reverse := fun hmem ↦ h (List.mem_reverse.1 hmem)
    have hall : ((back.take k).reverse ++ front.reverse).takeWhile (· ≠ '\n') =
        (back.take k).reverse ++ front.reverse.takeWhile (· ≠ '\n') :=
      List.takeWhile_append_of_pos fun c hc ↦ by
        simpa using fun hcn : c = '\n' ↦ hline (hcn ▸ hc)
    rw [hall, takeWhile_of_no_newline hline, List.count_eq_zero.2 h, if_pos (by simp)]
    simp only [List.length_append, List.length_reverse, Position.mk.injEq]
    omega

theorem ofEnd_line (text : List Char) : (ofEnd text).line = text.count '\n' + 1 := by
  rw [ofEnd, ofOffset_eq, before_natCast, List.take_length]

/-- Positions stand in the order of their offsets. -/
theorem before_of_lt {text : List Char} {i j : Nat} (h : i < j) (hj : j ≤ text.length) :
    (ofOffset text i).Before (ofOffset text j) := by
  obtain ⟨a, b, behind, rfl, rfl, rfl⟩ : ∃ a b behind, text = a ++ (b ++ behind) ∧ i = a.length ∧
      j = b.length + a.length := by
    refine ⟨text.take i, (text.drop i).take (j - i), (text.drop i).drop (j - i), ?_, ?_, ?_⟩
    · rw [List.take_append_drop, List.take_append_drop]
    · rw [List.length_take]
      omega
    · rw [List.length_take, List.length_take, List.length_drop]
      omega
  have hi : ofOffset (a ++ (b ++ behind)) (a.length : Nat) = ofEnd a :=
    ofOffset_front (Nat.le_refl _) _
  have hb : ofOffset (b ++ behind) (b.length : Nat) = ofEnd b := ofOffset_front (Nat.le_refl _) _
  rw [hi, ofOffset_append, hb]
  by_cases hline : '\n' ∈ b
  · have hcount : 0 < b.count '\n' := List.count_pos_iff.2 hline
    have hend := ofEnd_line b
    rw [after, if_neg (by omega)]
    exact .inl (by dsimp only; omega)
  · rw [ofEnd_of_no_newline hline, after, if_pos rfl]
    exact .inr ⟨rfl, by dsimp only; omega⟩

theorem eq_or_before_of_le {text : List Char} {i j : Nat} (h : i ≤ j) (hj : j ≤ text.length) :
    ofOffset text i = ofOffset text j ∨ (ofOffset text i).Before (ofOffset text j) := by
  rcases Nat.eq_or_lt_of_le h with rfl | hlt
  · exact .inl rfl
  · exact .inr (before_of_lt hlt hj)

/-- What stands before a place stays where a line is broken there. -/
theorem broken_of_lt {front : List Char} {k : Nat} (h : k < front.length) (width : Nat) :
    broken (ofEnd front) width (ofOffset front k) = ofOffset front k :=
  if_pos (before_of_lt h (Nat.le_refl _))

/-- What stands behind a place goes on in the next line where a line is broken there. -/
theorem broken_after (q : Position) {p : Position} (hline : 1 ≤ p.line) (hcolumn : 1 ≤ p.column)
    (width : Nat) : broken q width (q.after p) = after ⟨q.line + 1, width + 1⟩ p := by
  by_cases hp : p.line = 1
  · rw [after, after, if_pos hp, if_pos hp, broken, if_neg (by dsimp only; omega), if_pos rfl]
    simp only [Position.mk.injEq, true_and]
    omega
  · rw [after, after, if_neg hp, if_neg hp, broken, if_neg (by dsimp only; omega),
      if_neg (by dsimp only; omega), down]
    simp only [Position.mk.injEq, and_true]
    omega

/-- The place behind a line that is broken. -/
theorem ofEnd_broken (front : List Char) {blanks : List Char} (h : '\n' ∉ blanks) :
    ofEnd (front ++ '\n' :: blanks) = ⟨(ofEnd front).line + 1, blanks.length + 1⟩ := by
  have hlength : (front ++ '\n' :: blanks).length = blanks.length + (front.length + 1) := by
    rw [List.length_append, List.length_cons]
    omega
  rw [ofEnd, hlength, ofOffset_back, show ofOffset blanks blanks.length = _ from
    ofEnd_of_no_newline h, down, ofEnd_line]
  simp only [Position.mk.injEq, and_true]
  omega

end Position

/-! ### The way back to the offset -/

/-- The offset at which a line begins that has a number of newlines before it. -/
def lineStart : Nat → List Char → Nat
  | 0, _ => 0
  | _ + 1, [] => 0
  | n + 1, c :: rest => 1 + if c = '\n' then lineStart n rest else lineStart (n + 1) rest

/-- The line that has a number of newlines before it, without the one that ends it. -/
def lineBehind (n : Nat) (text : List Char) : List Char :=
  (text.drop (lineStart n text)).takeWhile (· ≠ '\n')

/-- A position lies in a text: there is such a line, and the column is one of a character in it or
the one behind them. -/
structure Position.LiesIn (p : Position) (text : List Char) : Prop where
  /-- Lines are counted from one. -/
  one_le_line : 1 ≤ p.line
  /-- Each newline begins one more line. -/
  line_le : p.line ≤ text.count '\n' + 1
  /-- Columns are counted from one. -/
  one_le_column : 1 ≤ p.column
  /-- A line has one more place than characters. -/
  column_le : p.column ≤ (lineBehind (p.line - 1).toNat text).length + 1

/-- A line begins behind a text: it is empty or ends with a newline. -/
def EndsLine (front : List Char) : Prop :=
  ∀ c ∈ front.getLast?, c = '\n'

section LineStarts

variable {front line : List Char}

theorem endsLine_nil : EndsLine [] :=
  fun _ h ↦ absurd h (by simp)

theorem endsLine_cons {c : Char} (h : EndsLine front) (hc : front = [] → c = '\n') :
    EndsLine (c :: front) := by
  cases front with
  | nil => exact fun d hd ↦ (Option.some.inj hd).symm.trans (hc rfl)
  | cons d rest =>
    intro e he
    rw [List.getLast?_cons_cons] at he
    exact h e he

/-- Whatever is in front of a text, a line begins behind a part of it, and goes on to its end. -/
theorem exists_append_of_endsLine (text : List Char) :
    ∃ front line, text = front ++ line ∧ EndsLine front ∧ '\n' ∉ line := by
  induction text with
  | nil => exact ⟨[], [], rfl, endsLine_nil, List.not_mem_nil⟩
  | cons c rest ih =>
    obtain ⟨front, line, rfl, hfront, hline⟩ := ih
    by_cases h : front = [] ∧ c ≠ '\n'
    · obtain ⟨rfl, hc⟩ := h
      exact ⟨[], c :: line, rfl, endsLine_nil, by simp [hline, Ne.symm hc]⟩
    · have hc : front = [] → c = '\n' := fun hnil ↦ Decidable.not_not.1 fun hc ↦ h ⟨hnil, hc⟩
      exact ⟨c :: front, line, rfl, endsLine_cons hfront hc, hline⟩

/-- Every line begins somewhere. -/
theorem exists_append_of_le {text : List Char} {n : Nat} (h : n ≤ text.count '\n') :
    ∃ front behind, text = front ++ behind ∧ EndsLine front ∧ front.count '\n' = n := by
  induction text generalizing n with
  | nil => exact ⟨[], [], rfl, endsLine_nil, (Nat.le_zero.1 h).symm⟩
  | cons c rest ih =>
    cases n with
    | zero => exact ⟨[], c :: rest, rfl, endsLine_nil, rfl⟩
    | succ n =>
      by_cases hc : c = '\n'
      · subst hc
        rw [List.count_cons_self] at h
        obtain ⟨front, behind, rfl, hfront, hn⟩ := ih (Nat.le_of_succ_le_succ h)
        exact ⟨'\n' :: front, behind, rfl, endsLine_cons hfront fun _ ↦ rfl, by
          rw [List.count_cons_self, hn]⟩
      · rw [List.count_cons_of_ne hc] at h
        obtain ⟨front, behind, rfl, hfront, hn⟩ := ih h
        -- it has a newline, so it is not empty
        have hne : front ≠ [] := by
          rintro rfl
          exact absurd hn (by simp)
        exact ⟨c :: front, behind, rfl, endsLine_cons hfront fun hnil ↦ absurd hnil hne, by
          rw [List.count_cons_of_ne hc, hn]⟩

/-- Where a line begins is found by counting newlines. -/
theorem lineStart_append (h : EndsLine front) (behind : List Char) :
    lineStart (front.count '\n') (front ++ behind) = front.length := by
  induction front with
  | nil => rw [List.count_nil, lineStart, List.length_nil]
  | cons c rest ih =>
    have hrest : EndsLine rest := by
      cases rest with
      | nil => exact endsLine_nil
      | cons d rest => exact fun e he ↦ h e (List.getLast?_cons_cons.trans he)
    by_cases hc : c = '\n'
    · subst hc
      rw [List.count_cons_self, List.cons_append, lineStart, if_pos rfl, ih hrest, List.length_cons,
        Nat.add_comm]
    · -- the last character is a newline, so there is one in what follows
      obtain ⟨n, hn⟩ : ∃ n, rest.count '\n' = n + 1 := by
        refine Nat.exists_eq_add_one_of_ne_zero fun hzero ↦ ?_
        rcases List.eq_nil_or_concat rest with rfl | ⟨front, d, rfl⟩
        · exact hc (h c rfl)
        · have hd : d = '\n' := hrest d (by simp)
          exact List.count_eq_zero.1 hzero (by simp [hd])
      have ih := ih hrest
      rw [hn] at ih
      rw [List.count_cons_of_ne hc, hn, List.cons_append, lineStart, if_neg hc, ih,
        List.length_cons, Nat.add_comm]

/-- The place in a line says how many newlines and how many characters are before it. -/
theorem Position.ofOffset_of_endsLine (h : EndsLine front) (hline : '\n' ∉ line)
    (behind : List Char) :
    ofOffset (front ++ line ++ behind) ((front ++ line).length : Nat) =
      ⟨front.count '\n' + 1, line.length + 1⟩ := by
  have hend : ofOffset (front ++ line ++ behind) ((front ++ line).length : Nat) =
      ofEnd (front ++ line) :=
    ofOffset_front (Nat.le_refl _) behind
  rw [hend]
  rcases List.eq_nil_or_concat front with rfl | ⟨rest, c, rfl⟩
  · exact ofEnd_of_no_newline hline
  · obtain rfl : c = '\n' := h c (by simp)
    have hcount : (rest ++ ['\n']).count '\n' = rest.count '\n' + 1 := by
      rw [List.count_append]
      rfl
    rw [List.concat_eq_append, List.append_assoc, List.singleton_append, ofEnd_broken rest hline,
      ofEnd_line, hcount]
    rfl

end LineStarts

namespace Position

variable {text : List Char} {k : Nat}

/-- The position of an offset lies in the text, and the offset is found again by the start of its
line and its column. -/
theorem liesIn_ofOffset (hk : k ≤ text.length) :
    (ofOffset text k).LiesIn text ∧
      (k : Int) =
        lineStart ((ofOffset text k).line - 1).toNat text + (ofOffset text k).column - 1 := by
  obtain ⟨front, line, hbefore, hfront, hline⟩ := exists_append_of_endsLine (text.take k)
  obtain ⟨behind, rfl⟩ : ∃ behind, text = front ++ line ++ behind :=
    ⟨text.drop k, by rw [← hbefore, List.take_append_drop]⟩
  obtain rfl : k = (front ++ line).length := by
    rw [← hbefore, List.length_take, Nat.min_eq_left hk]
  have hposition := ofOffset_of_endsLine hfront hline behind
  have hstart : lineStart (front.count '\n') (front ++ line ++ behind) = front.length := by
    rw [List.append_assoc, lineStart_append hfront]
  have hnumber : ((front.count '\n' : Int) + 1 - 1).toNat = front.count '\n' := by omega
  rw [hposition]
  refine ⟨⟨?_, ?_, ?_, ?_⟩, ?_⟩
  · dsimp only
    omega
  · have hle : front.count '\n' ≤ (front ++ line ++ behind).count '\n' := by
      rw [List.append_assoc, List.count_append]
      exact Nat.le_add_right _ _
    dsimp only
    omega
  · dsimp only
    omega
  · have hlength :
        line.length ≤ (lineBehind (front.count '\n') (front ++ line ++ behind)).length := by
      rw [lineBehind, hstart, List.append_assoc, List.drop_left,
        List.takeWhile_append_of_pos fun c hc ↦ by
          simpa using fun heq : c = '\n' ↦ hline (heq ▸ hc),
        List.length_append]
      exact Nat.le_add_right _ _
    dsimp only
    rw [hnumber]
    omega
  · dsimp only
    rw [hnumber, hstart, List.length_append]
    omega

/-- A position that lies in a text is that of an offset. -/
theorem exists_offset_of_liesIn {p : Position} (h : p.LiesIn text) :
    ∃ k ≤ text.length, ofOffset text (k : Nat) = p := by
  have hone := h.one_le_line
  have hone' := h.one_le_column
  obtain ⟨n, hn⟩ : ∃ n : Nat, p.line = n + 1 := ⟨(p.line - 1).toNat, by omega⟩
  obtain ⟨j, hj⟩ : ∃ j : Nat, p.column = j + 1 := ⟨(p.column - 1).toNat, by omega⟩
  have hline := h.line_le
  have hcolumn := h.column_le
  have hn_le : n ≤ text.count '\n' := by omega
  obtain ⟨front, behind, rfl, hfront, rfl⟩ := exists_append_of_le hn_le
  rw [show (p.line - 1).toNat = front.count '\n' by omega, lineBehind, lineStart_append hfront,
    List.drop_left, hj] at hcolumn
  -- what stands before the column is a part of the line
  have hle : j ≤ (behind.takeWhile (· ≠ '\n')).length := by omega
  have hinside : '\n' ∉ behind.take j := by
    intro hmem
    rw [← List.takeWhile_append_dropWhile (p := (· ≠ '\n')) (l := behind),
      List.take_append_of_le_length hle] at hmem
    simpa using List.all_eq_true.1 List.all_takeWhile _ (List.mem_of_mem_take hmem)
  have hlength : (behind.take j).length = j :=
    List.length_take_of_le (Nat.le_trans hle (List.takeWhile_prefix _).length_le)
  have hposition := ofOffset_of_endsLine hfront hinside (behind.drop j)
  rw [List.append_assoc, List.take_append_drop, hlength] at hposition
  refine ⟨(front ++ behind.take j).length, ?_, ?_⟩
  · rw [List.length_append, List.length_append, List.length_take]
    omega
  · rw [hposition, ← hn, ← hj]

/-- The offsets of a text and the positions that lie in it correspond to each other:

* of two offsets the one in front has the position in front, in an earlier line or further left in
  the same one, and so two offsets never share a position;
* the position of an offset lies in the text, with a line and a column of at least one, and the
  offset is the start of that line and the column less one;
* every position that lies in the text is that of an offset. -/
theorem ofOffset_order_isomorphism (text : List Char) :
    (∀ a b : Int, 0 ≤ a → a < b → b ≤ text.length →
      (ofOffset text a).Before (ofOffset text b) ∧ ofOffset text a ≠ ofOffset text b) ∧
    (∀ a : Int, 0 ≤ a → a ≤ text.length →
      1 ≤ (ofOffset text a).line ∧ 1 ≤ (ofOffset text a).column ∧ (ofOffset text a).LiesIn text ∧
        a = lineStart ((ofOffset text a).line - 1).toNat text + (ofOffset text a).column - 1) ∧
    ∀ p : Position, p.LiesIn text → ∃ a : Int, 0 ≤ a ∧ a ≤ text.length ∧ ofOffset text a = p := by
  refine ⟨fun a b ha hab hb ↦ ?_, fun a ha hle ↦ ?_, fun p hp ↦ ?_⟩
  · obtain ⟨i, rfl⟩ := Int.eq_ofNat_of_zero_le ha
    obtain ⟨j, rfl⟩ := Int.eq_ofNat_of_zero_le (Int.le_trans ha (Int.le_of_lt hab))
    have hbefore : (ofOffset text i).Before (ofOffset text j) :=
      before_of_lt (Int.ofNat_lt.1 hab) (Int.ofNat_le.1 hb)
    refine ⟨hbefore, fun heq ↦ ?_⟩
    rw [heq] at hbefore
    rcases hbefore with hlt | ⟨-, hlt⟩ <;> exact absurd hlt (Int.lt_irrefl _)
  · obtain ⟨k, rfl⟩ := Int.eq_ofNat_of_zero_le ha
    obtain ⟨hlies, hoffset⟩ := liesIn_ofOffset (Int.ofNat_le.1 hle)
    exact ⟨hlies.one_le_line, hlies.one_le_column, hlies, hoffset⟩
  · obtain ⟨k, hk, hposition⟩ := exists_offset_of_liesIn hp
    exact ⟨k, Int.natCast_nonneg k, Int.ofNat_le.2 hk, hposition⟩

/-- Around newlines in a row, and at the end of the text behind one. -/
theorem ofOffset_order_isomorphism_newlines :
    let text := "ab\n\nc\n".toList
    let p : Position := ⟨4, 1⟩
    (ofOffset text 2).Before (ofOffset text 3) ∧ ofOffset text 2 = ⟨1, 3⟩ ∧
      ofOffset text 3 = ⟨2, 1⟩ ∧ (4 : Int) = lineStart 2 text + 1 - 1 ∧ ofOffset text 4 = ⟨3, 1⟩ ∧
      p.LiesIn text ∧ ∃ a : Int, 0 ≤ a ∧ a ≤ 6 ∧ ofOffset text a = p := by
  intro text p
  obtain ⟨hbefore, hoffset, hexists⟩ := ofOffset_order_isomorphism text
  have hlies : p.LiesIn text := ⟨by decide, by decide, by decide, by decide⟩
  exact ⟨(hbefore 2 3 (by decide) (by decide) (by decide)).1, by decide, by decide,
    (hoffset 4 (by decide) (by decide)).2.2.2, by decide, hlies, hexists p hlies⟩

end Position

end Sangria
