import Mathlib.Data.Bool.AllAny
import Mathlib.Data.List.Find
import Sangria.Position
import Sangria.Token.Munch

/-!
# What is munched

Every rule for a token takes at least one character and none that is not there, and finds a kind of
token that is written in a source (`munch_length`).

No token but a line end has a newline in it, so what is munched in front of a line end does not
depend on what stands behind (`munch_append_newline`). Other separators may stand in a quoted text,
so in front of one of them it is only certain that what is munched at the end of a text is munched
(`munch_append_separator`). Whatever stands behind a token is of no use to it, and can be taken away
(`munch_of_append`).
-/

namespace Sangria

/-- No word begins with a digit. -/
theorem isWordStart_of_isAsciiDigit {c : Char} (hc : isAsciiDigit c = true) :
    isWordStart c = false := by
  have hlt : c.toNat < 0x80 := by
    simp only [isAsciiDigit, Bool.and_eq_true, decide_eq_true_eq, Char.le_def] at hc
    exact Nat.lt_of_le_of_lt hc.2 (by decide)
  simp [isWordStart, isDecimalDigit, decimalValue?, hlt, hc]

theorem digitCount_le (text : List Char) : digitCount text ≤ text.length :=
  (List.takeWhile_sublist _).length_le

theorem exponentLength_le (text : List Char) : exponentLength text ≤ text.length := by
  rcases text with - | ⟨e, rest⟩
  · exact Nat.le_refl 0
  have hle (sign : Nat) :
      (if digitCount (rest.drop sign) = 0 then 0 else 1 + sign + digitCount (rest.drop sign))
        ≤ rest.length + 1 := by
    have hdigits := digitCount_le (rest.drop sign)
    rw [List.length_drop] at hdigits
    split <;> omega
  unfold exponentLength
  dsimp only
  split
  · exact hle _
  · exact Nat.zero_le _

/-- A number takes a digit or a point, and is an integer or a real number. -/
theorem munchNumber_length {text : List Char} {k : Kind} {n : Nat}
    (h : munchNumber text = some (k, n)) :
    0 < n ∧ n ≤ text.length ∧ (k = .literal .int ∨ k = .literal .float) := by
  have hwhole := digitCount_le text
  have hdrop : (text.drop (digitCount text)).length = text.length - digitCount text :=
    List.length_drop
  unfold munchNumber at h
  dsimp only at h
  split at h
  · rename_i rest heq
    rw [heq, List.length_cons] at hdrop
    have hplaces := digitCount_le rest
    have hexponent := exponentLength_le (rest.drop (digitCount rest))
    rw [List.length_drop] at hexponent
    split at h
    · exact absurd h (by simp)
    · obtain ⟨rfl, rfl⟩ := Prod.mk.inj (Option.some.inj h)
      exact ⟨by omega, by omega, .inr rfl⟩
  · rename_i rest _
    have hexponent := exponentLength_le (text.drop (digitCount text))
    split at h
    · exact absurd h (by simp)
    · split at h
      · obtain ⟨rfl, rfl⟩ := Prod.mk.inj (Option.some.inj h)
        exact ⟨by omega, hwhole, .inl rfl⟩
      · obtain ⟨rfl, rfl⟩ := Prod.mk.inj (Option.some.inj h)
        exact ⟨by omega, by omega, .inr rfl⟩

/-- A number begins with a digit or a point. -/
theorem munchNumber_eq_none {c : Char} (hdigit : isAsciiDigit c = false) (hpoint : c ≠ '.')
    (rest : List Char) : munchNumber (c :: rest) = none := by
  have hcount : digitCount (c :: rest) = 0 := by simp [digitCount, hdigit]
  unfold munchNumber
  simp only [hcount, List.drop_zero]
  split
  · rename_i heq
    exact absurd (List.cons.inj heq).1 hpoint
  · rfl

theorem closingQuote_length {q : Char} {text : List Char} {n : Nat}
    (h : closingQuote q text = some n) : 0 < n ∧ n ≤ text.length := by
  fun_induction closingQuote q text generalizing n with
  | case1 => exact absurd h (by simp)
  | case2 => exact absurd h (by simp)
  | case3 => exact absurd h (by simp)
  | case4 c rest hc ih =>
    obtain ⟨m, hm, rfl⟩ := Option.map_eq_some_iff.1 h
    have := ih hm
    simp only [List.length_cons]
    omega
  | case5 =>
    obtain rfl := Option.some.inj h
    simp
  | case6 => exact absurd h (by simp)
  | case7 c rest _ _ _ _ ih =>
    obtain ⟨m, hm, rfl⟩ := Option.map_eq_some_iff.1 h
    have := ih hm
    simp only [List.length_cons]
    omega

theorem commentLength_eq_zero {c : Char} (hc : c ≠ '#') (rest : List Char) :
    commentLength (c :: rest) = 0 := by
  rw [commentLength]
  exact fun _ heq ↦ hc (List.cons.inj heq).1

/-- Whether a kind of token is written inside a line. -/
def Kind.isWord : Kind → Bool
  | .newline | .indent | .dedent | .eof => false
  | _ => true

theorem isWord_of_mem_signs : ∀ s ∈ signs, s.2.isWord = true ∧ 0 < s.1.length := by
  decide

theorem isWord_of_mem_reservedWords : ∀ w ∈ reservedWords, w.2.isWord = true := by
  decide

/-- A word is a name, or it is reserved for its kind. -/
theorem wordKind_cases (word : List Char) :
    wordKind word = .name ∨ (String.ofList word, wordKind word) ∈ reservedWords := by
  rw [wordKind]
  cases h : reservedWords.lookup (String.ofList word) with
  | none => exact .inl rfl
  | some k =>
    obtain ⟨front, behind, hwords, -⟩ := List.lookup_eq_some_iff.1 h
    exact .inr (hwords ▸ List.mem_append_right _ List.mem_cons_self)

theorem isWord_wordKind (word : List Char) : (wordKind word).isWord = true := by
  rcases wordKind_cases word with h | h
  · rw [h]
    rfl
  · exact isWord_of_mem_reservedWords _ h

theorem munchSign_length {text : List Char} {k : Kind} {n : Nat}
    (h : munchSign text = some (k, n)) : 0 < n ∧ n ≤ text.length ∧ k.isWord = true := by
  obtain ⟨s, hs, heq⟩ := Option.map_eq_some_iff.1 h
  obtain ⟨rfl, rfl⟩ := Prod.mk.inj heq
  have hfound := List.find?_some hs
  have hprefix : s.1 <+: text := List.isPrefixOf_iff_prefix.1 hfound
  obtain ⟨hword, hpos⟩ := isWord_of_mem_signs s (List.mem_of_find?_eq_some hs)
  exact ⟨hpos, hprefix.length_le, hword⟩

/-- A token takes at least one character and none that is not there. It is a line end exactly when
it begins with a newline, and otherwise a word. -/
theorem munch_length {c : Char} {rest : List Char} {k : Kind} {n : Nat}
    (h : munch (c :: rest) = some (k, n)) :
    0 < n ∧ n ≤ (c :: rest).length ∧ if c = '\n' then k = .newline else k.isWord = true := by
  unfold munch at h
  dsimp only at h
  split at h
  · rename_i hc
    obtain ⟨rfl, rfl⟩ := Prod.mk.inj (Option.some.inj h)
    refine ⟨?_, (List.takeWhile_sublist _).length_le, by rw [if_pos hc]⟩
    rw [List.takeWhile_cons_of_pos (by simpa using hc)]
    exact Nat.succ_pos _
  · rename_i hc
    rw [if_neg hc]
    split at h
    · rename_i hstart
      obtain ⟨rfl, rfl⟩ := Prod.mk.inj (Option.some.inj h)
      refine ⟨?_, (List.takeWhile_sublist _).length_le, isWord_wordKind _⟩
      rw [List.takeWhile_cons_of_pos (isWordStart_iff.1 hstart).1]
      exact Nat.succ_pos _
    · split at h
      · obtain ⟨m, hm, heq⟩ := Option.map_eq_some_iff.1 h
        obtain ⟨rfl, rfl⟩ := Prod.mk.inj heq
        exact ⟨Nat.succ_pos _, Nat.succ_le_succ (closingQuote_length hm).2, rfl⟩
      · rcases Option.or_eq_some_iff.1 h with h | ⟨-, h⟩
        · obtain ⟨hpos, hle, rfl | rfl⟩ := munchNumber_length h
          · exact ⟨hpos, hle, rfl⟩
          · exact ⟨hpos, hle, rfl⟩
        · exact munchSign_length h

/-! ### In front of a separator -/

/-- The characters that stand in no token but a line end or a quoted text. -/
def separators : List Char :=
  ['\n', '#', ' ', '\t', '\r']

/-- No word, number or sign goes on with a separator. -/
theorem stops_of_mem_separators : ∀ c ∈ separators, isWordChar c = false ∧
    isAsciiDigit c = false ∧ c ∉ ['.', '+', '-'] ∧ ∀ s ∈ signs, c ∉ s.1 := by
  -- `List.all` keeps `decide` from trying all characters that there are
  exact List.all_iff_forall_prop.1 (by decide +kernel)

/-- What stands behind a character that is not taken plays no part. -/
theorem takeWhile_append_cons {p : Char → Bool} {c : Char} (hc : p c = false)
    (front behind : List Char) : (front ++ c :: behind).takeWhile p = front.takeWhile p := by
  rw [List.takeWhile_append]
  split
  · rename_i hall
    rw [List.takeWhile_cons_of_neg (by simp [hc]), List.append_nil]
    exact ((List.takeWhile_prefix p).eq_of_length hall).symm
  · rfl

section LineEnd

variable (front behind : List Char)

theorem commentLength_append_newline :
    commentLength (front ++ '\n' :: behind) = commentLength front := by
  rcases front with - | ⟨c, rest⟩
  · rfl
  · unfold commentLength
    dsimp only [List.cons_append]
    split
    · rename_i heq
      obtain ⟨rfl, rfl⟩ := List.cons.inj heq
      rw [takeWhile_append_newline]
      rfl
    · rename_i hne
      split
      · rename_i heq
        exact absurd (by rw [(List.cons.inj heq).1]) (hne (rest ++ '\n' :: behind))
      · rfl

/-- A gap does not reach over a line end. -/
theorem gap_append_newline : gap (front ++ '\n' :: behind) = gap front := by
  have hblanks : (front ++ '\n' :: behind).takeWhile isBlank = front.takeWhile isBlank :=
    takeWhile_append_cons rfl front behind
  have hle : (front.takeWhile isBlank).length ≤ front.length :=
    (List.takeWhile_sublist _).length_le
  rw [gap, gap, hblanks, List.drop_append_of_le_length hle, commentLength_append_newline]

end LineEnd

section Separator

variable {sep : Char} (hsep : sep ∈ separators) (front behind : List Char)

include hsep

theorem digitCount_append_separator : digitCount (front ++ sep :: behind) = digitCount front :=
  congrArg List.length (takeWhile_append_cons (stops_of_mem_separators sep hsep).2.1 front behind)

theorem exponentLength_append_separator :
    exponentLength (front ++ sep :: behind) = exponentLength front := by
  obtain ⟨-, hdigit, hsign, -⟩ := stops_of_mem_separators sep hsep
  rcases front with - | ⟨e, - | ⟨c, rest⟩⟩
  · obtain ⟨hupper, hlower⟩ : sep ≠ 'e' ∧ sep ≠ 'E' := by
      constructor <;> (rintro rfl; revert hsep; decide)
    simp [exponentLength, hupper, hlower]
  · -- neither the sign nor a digit of an exponent is a separator
    obtain ⟨-, hplus, hminus⟩ : sep ≠ '.' ∧ sep ≠ '+' ∧ sep ≠ '-' := by simpa using hsign
    simp [exponentLength, digitCount, hdigit, hplus, hminus]
  · have hdigits (sign : Nat) (hsign : sign ≤ 1) :
        digitCount ((c :: rest ++ sep :: behind).drop sign) =
          digitCount ((c :: rest).drop sign) := by
      rw [List.drop_append_of_le_length (by simp; omega), digitCount_append_separator hsep]
    simp only [List.cons_append] at hdigits
    simp only [exponentLength, List.cons_append]
    rw [hdigits _ (by split <;> decide)]

omit hsep in
/-- Without a point behind the digits, only an exponent makes a number real. -/
theorem munchNumber_of_no_point {text : List Char}
    (h : '.' ∉ (text.drop (digitCount text)).head?) :
    munchNumber text =
      if digitCount text = 0 then none
      else if exponentLength (text.drop (digitCount text)) = 0 then
        some (.literal .int, digitCount text)
      else some (.literal .float,
        digitCount text + exponentLength (text.drop (digitCount text))) := by
  unfold munchNumber
  dsimp only
  split
  · rename_i heq
    exact absurd (by rw [heq]; rfl) h
  · rfl

omit hsep in
/-- With a point behind the digits, there are digits before or behind it, or no number. -/
theorem munchNumber_of_point {text rest : List Char}
    (h : text.drop (digitCount text) = '.' :: rest) :
    munchNumber text =
      if digitCount text = 0 ∧ digitCount rest = 0 then none
      else some (.literal .float, digitCount text + 1 + digitCount rest +
        exponentLength (rest.drop (digitCount rest))) := by
  simp only [munchNumber, h]

theorem munchNumber_append_separator :
    munchNumber (front ++ sep :: behind) = munchNumber front := by
  have hdigits := digitCount_append_separator hsep front behind
  have hdrop : (front ++ sep :: behind).drop (digitCount front) =
      front.drop (digitCount front) ++ sep :: behind :=
    List.drop_append_of_le_length (digitCount_le front)
  by_cases hpoint : '.' ∈ (front.drop (digitCount front)).head?
  · obtain ⟨rest, hrest⟩ : ∃ rest, front.drop (digitCount front) = '.' :: rest :=
      List.head?_eq_some_iff.1 hpoint
    have hplaces : (rest ++ sep :: behind).drop (digitCount rest) =
        rest.drop (digitCount rest) ++ sep :: behind :=
      List.drop_append_of_le_length (digitCount_le rest)
    rw [hrest, List.cons_append] at hdrop
    rw [munchNumber_of_point hrest, munchNumber_of_point (by rw [hdigits, hdrop]), hdigits,
      digitCount_append_separator hsep, hplaces, exponentLength_append_separator hsep]
  · have hpoint' : '.' ∉ (front.drop (digitCount front) ++ sep :: behind).head? := by
      cases h : front.drop (digitCount front) with
      | nil =>
        have hne := (stops_of_mem_separators sep hsep).2.2.1
        simp only [List.mem_cons, not_or] at hne
        simpa using hne.1
      | cons c rest => rwa [h] at hpoint
    rw [munchNumber_of_no_point hpoint, munchNumber_of_no_point (by rwa [hdigits, hdrop]), hdigits,
      hdrop, exponentLength_append_separator hsep]

omit hsep in
theorem isPrefixOf_append_cons {sign : List Char} (h : sep ∉ sign) :
    sign.isPrefixOf (front ++ sep :: behind) = sign.isPrefixOf front := by
  induction sign generalizing front with
  | nil => simp
  | cons c sign ih =>
    rw [List.mem_cons, not_or] at h
    cases front with
    | nil => simp [List.isPrefixOf, Ne.symm h.1]
    | cons d front => rw [List.cons_append, List.isPrefixOf, List.isPrefixOf, ih _ h.2]

theorem munchSign_append_separator : munchSign (front ++ sep :: behind) = munchSign front := by
  have hprefix : ∀ s ∈ signs, s.1.isPrefixOf (front ++ sep :: behind) = s.1.isPrefixOf front :=
    fun s hs ↦ isPrefixOf_append_cons front behind ((stops_of_mem_separators sep hsep).2.2.2 s hs)
  rw [munchSign, munchSign, List.find?_congr hprefix]

end Separator

section Quoted

variable {q : Char} (front behind : List Char)

/-- A character that is no backslash stands for itself. -/
theorem closingQuote_of_ne_backslash {c : Char} (hc : c ≠ '\\') (rest : List Char) :
    closingQuote q (c :: rest) =
      if c = q then some 1
      else if c = '\n' then none
      else (closingQuote q rest).map (· + 1) := by
  rw [closingQuote]
  · exact fun h ↦ absurd h hc
  · exact fun _ _ h ↦ absurd h hc

/-- What stands inside quotes goes from piece to piece: a backslash takes the next character with
it, if there is one, and any other character stands alone. -/
@[elab_as_elim]
theorem quoted_induction {motive : List Char → Prop} (nil : motive []) (lone : motive ['\\'])
    (pair : ∀ c rest, motive rest → motive ('\\' :: c :: rest))
    (plain : ∀ c rest, c ≠ '\\' → motive rest → motive (c :: rest)) (text : List Char) :
    motive text := by
  induction hn : text.length using Nat.strongRecOn generalizing text with
  | ind n ih =>
    subst hn
    rcases text with - | ⟨c, rest⟩
    · exact nil
    · by_cases hc : c = '\\'
      · subst hc
        rcases rest with - | ⟨d, rest⟩
        · exact lone
        · exact pair d rest (ih rest.length (Nat.lt_succ_of_lt (Nat.lt_succ_self _)) rest rfl)
      · exact plain c rest hc (ih rest.length (Nat.lt_succ_self _) rest rfl)

theorem closingQuote_append_newline (hq : q ≠ '\n') :
    closingQuote q (front ++ '\n' :: behind) = closingQuote q front := by
  induction front using quoted_induction with
  | nil =>
    rw [List.nil_append, closingQuote_of_ne_backslash (by decide), if_neg (Ne.symm hq), if_pos rfl,
      closingQuote]
  | lone => rfl
  | pair c rest ih => simp only [List.cons_append, closingQuote, ih]
  | plain c rest hc ih =>
    rw [List.cons_append, closingQuote_of_ne_backslash hc, closingQuote_of_ne_backslash hc, ih]

variable {front}

/-- A quote that is found is found with anything behind it, and no other is. -/
theorem closingQuote_eq_some_iff {n : Nat} :
    closingQuote q front = some n ↔
      closingQuote q (front ++ behind) = some n ∧ n ≤ front.length := by
  induction front using quoted_induction generalizing n with
  | nil =>
    refine iff_of_false (by simp [closingQuote]) fun ⟨h, hn⟩ ↦ ?_
    exact absurd (closingQuote_length h).1 (Nat.not_lt_of_le hn)
  | lone =>
    refine iff_of_false (by simp [closingQuote]) fun ⟨h, hn⟩ ↦ ?_
    rcases behind with - | ⟨d, behind⟩
    · exact absurd h (by simp [closingQuote])
    · simp only [List.cons_append, List.nil_append, closingQuote,
        Option.ite_none_left_eq_some, Option.map_eq_some_iff] at h
      obtain ⟨-, m, -, rfl⟩ := h
      exact absurd hn (by simp)
  | pair c rest ih =>
    simp only [List.cons_append, closingQuote, Option.ite_none_left_eq_some,
      Option.map_eq_some_iff, ih, List.length_cons]
    constructor
    · rintro ⟨hc, m, ⟨hm, hle⟩, rfl⟩
      exact ⟨⟨hc, m, hm, rfl⟩, by omega⟩
    · rintro ⟨⟨hc, m, hm, rfl⟩, hle⟩
      exact ⟨hc, m, ⟨hm, by omega⟩, rfl⟩
  | plain c rest hc ih =>
    rw [List.cons_append, closingQuote_of_ne_backslash hc, closingQuote_of_ne_backslash hc,
      List.length_cons]
    split
    · exact ⟨fun h ↦ ⟨h, by obtain rfl := Option.some.inj h; omega⟩, fun h ↦ h.1⟩
    · simp only [Option.ite_none_left_eq_some, Option.map_eq_some_iff, ih]
      constructor
      · rintro ⟨hline, m, ⟨hm, hle⟩, rfl⟩
        exact ⟨⟨hline, m, hm, rfl⟩, by omega⟩
      · rintro ⟨⟨hline, m, hm, rfl⟩, hle⟩
        exact ⟨hline, m, ⟨hm, by omega⟩, rfl⟩

end Quoted

section Token

variable {c : Char} (behind : List Char)

/-- A token that is no line end is munched in front of one as it is at the end of a text. -/
theorem munch_append_newline (hc : c ≠ '\n') (rest : List Char) :
    munch (c :: rest ++ '\n' :: behind) = munch (c :: rest) := by
  have hsep : '\n' ∈ separators := List.mem_cons_self
  have hword := takeWhile_append_cons (stops_of_mem_separators _ hsep).1 (c :: rest) behind
  have hnumber := munchNumber_append_separator hsep (c :: rest) behind
  have hsign := munchSign_append_separator hsep (c :: rest) behind
  simp only [List.cons_append] at hword hnumber hsign ⊢
  rw [munch, munch, if_neg hc, if_neg hc, hword, hnumber, hsign]
  split
  · rfl
  · split
    · rw [closingQuote_append_newline rest behind hc]
    · rfl

/-- A token that is no line end is munched in front of a separator if it is at the end of a text. -/
theorem munch_append_separator {sep : Char} (hsep : sep ∈ separators) (hc : c ≠ '\n')
    {rest : List Char} {r : Kind × Nat} (h : munch (c :: rest) = some r) :
    munch (c :: rest ++ sep :: behind) = some r := by
  have hword := takeWhile_append_cons (stops_of_mem_separators _ hsep).1 (c :: rest) behind
  have hnumber := munchNumber_append_separator hsep (c :: rest) behind
  have hsign := munchSign_append_separator hsep (c :: rest) behind
  rw [← h]
  simp only [List.cons_append] at hword hnumber hsign ⊢
  rw [munch, if_neg hc] at h
  rw [munch, munch, if_neg hc, if_neg hc, hword, hnumber, hsign]
  split
  · rfl
  · rename_i hstart
    rw [if_neg hstart] at h
    split
    · rename_i hquote
      rw [if_pos hquote] at h
      obtain ⟨n, hn, -⟩ := Option.map_eq_some_iff.1 h
      rw [hn, ((closingQuote_eq_some_iff (sep :: behind)).1 hn).1]
    · rfl

/-- No token but a line end begins with a separator. -/
theorem munch_eq_none_of_separator {sep : Char} (hsep : sep ∈ separators) (hnewline : sep ≠ '\n')
    (rest : List Char) : munch (sep :: rest) = none := by
  have hstart : ∀ c ∈ separators, isWordStart c = false ∧ ¬(c = '"' ∨ c = '\'') :=
    List.all_iff_forall_prop.1 (by decide +kernel)
  obtain ⟨hword, hquote⟩ := hstart sep hsep
  have hnumber := munchNumber_append_separator hsep [] rest
  have hsign := munchSign_append_separator hsep [] rest
  rw [List.nil_append] at hnumber hsign
  rw [munch, if_neg hnewline, if_neg (by simp [hword]), if_neg hquote, hnumber, hsign]
  rfl

/-- A line end that does not reach the end of a text is not longer in front of another text. -/
theorem munch_newline_append {rest : List Char}
    (h : (('\n' :: rest).takeWhile (· = '\n')).length < ('\n' :: rest).length) :
    munch ('\n' :: rest ++ behind) = munch ('\n' :: rest) := by
  have htake : ('\n' :: rest ++ behind).takeWhile (· = '\n') =
      ('\n' :: rest).takeWhile (· = '\n') := by
    rw [List.takeWhile_append, if_neg (Nat.ne_of_lt h)]
  rw [List.cons_append] at htake ⊢
  rw [munch, munch, if_pos rfl, if_pos rfl, htake]

end Token

/-! ### Cut off from what stands behind -/

section Cut

variable {front behind : List Char}

/-- What is taken and does not reach beyond a place is taken without what stands behind it. -/
theorem takeWhile_of_append {p : Char → Bool}
    (h : ((front ++ behind).takeWhile p).length ≤ front.length) :
    front.takeWhile p = (front ++ behind).takeWhile p := by
  rw [List.takeWhile_append] at h ⊢
  split at h
  · rename_i hall
    rw [if_pos hall]
    obtain hnil : behind.takeWhile p = [] := by
      rw [List.length_append] at h
      exact List.eq_nil_of_length_eq_zero (by omega)
    rw [hnil, List.append_nil]
    exact (List.takeWhile_prefix p).eq_of_length hall
  · rename_i hall
    rw [if_neg hall]

theorem digitCount_of_append (h : digitCount (front ++ behind) ≤ front.length) :
    digitCount front = digitCount (front ++ behind) :=
  congrArg List.length (takeWhile_of_append h)

theorem digitCount_le_append (front behind : List Char) :
    digitCount front ≤ digitCount (front ++ behind) := by
  rw [digitCount, digitCount, List.takeWhile_append]
  split
  · rename_i hall
    rw [hall, List.length_append]
    exact Nat.le_add_right _ _
  · exact Nat.le_refl _

/-- An exponent is longer than its letter. -/
theorem exponentLength_eq_zero {text : List Char} (h : exponentLength text ≤ 1) :
    exponentLength text = 0 := by
  rcases text with - | ⟨e, rest⟩
  · rfl
  simp only [exponentLength] at h ⊢
  split
  · rename_i he
    rw [if_pos he] at h
    rw [ite_eq_left_iff]
    intro hdigits
    rw [if_neg hdigits] at h
    omega
  · rfl

theorem exponentLength_of_append (h : exponentLength (front ++ behind) ≤ front.length) :
    exponentLength front = exponentLength (front ++ behind) := by
  rcases front with - | ⟨e, - | ⟨c, rest⟩⟩
  · exact (Nat.le_zero.1 h).symm
  · rw [exponentLength_eq_zero h]
    simp [exponentLength, digitCount]
  · by_cases he : e = 'e' ∨ e = 'E'
    · simp only [List.cons_append, exponentLength, if_pos he] at h ⊢
      obtain ⟨sign, hsign, hle⟩ : ∃ sign, (if c = '+' ∨ c = '-' then 1 else 0) = sign ∧ sign ≤ 1 :=
        ⟨_, rfl, by split <;> decide⟩
      have hdrop : (c :: (rest ++ behind)).drop sign = (c :: rest).drop sign ++ behind :=
        List.drop_append_of_le_length (show sign ≤ (c :: rest).length by
          rw [List.length_cons]; omega)
      rw [hsign, hdrop] at h
      rw [hsign, hdrop]
      by_cases hdigits : digitCount ((c :: rest).drop sign ++ behind) = 0
      · have hfewer := digitCount_le_append ((c :: rest).drop sign) behind
        rw [if_pos hdigits, if_pos (by omega)]
      · rw [if_neg hdigits] at h
        have hle : digitCount ((c :: rest).drop sign ++ behind) ≤
            ((c :: rest).drop sign).length := by
          rw [List.length_drop]
          simp only [List.length_cons] at h ⊢
          omega
        rw [digitCount_of_append hle]
    · simp only [List.cons_append, exponentLength, if_neg he]

/-- A number begins with its digits. -/
theorem digitCount_le_of_munchNumber {text : List Char} {k : Kind} {n : Nat}
    (h : munchNumber text = some (k, n)) : digitCount text ≤ n := by
  by_cases hpoint : '.' ∈ (text.drop (digitCount text)).head?
  · obtain ⟨rest, hrest⟩ := List.head?_eq_some_iff.1 hpoint
    simp only [munchNumber_of_point hrest, Option.ite_none_left_eq_some, Option.some.injEq,
      Prod.mk.injEq] at h
    omega
  · simp only [munchNumber_of_no_point hpoint, Option.ite_none_left_eq_some] at h
    obtain ⟨-, h⟩ := h
    split at h
    all_goals
      have := (Prod.mk.inj (Option.some.inj h)).2
      omega

/-- A number that does not reach beyond a place is the same without what stands behind it. -/
theorem munchNumber_of_append {k : Kind} {n : Nat} (h : munchNumber (front ++ behind) = some (k, n))
    (hn : n ≤ front.length) : munchNumber front = some (k, n) := by
  have hwhole := digitCount_le_of_munchNumber h
  have hdigits : digitCount front = digitCount (front ++ behind) :=
    digitCount_of_append (hwhole.trans hn)
  have hdrop : (front ++ behind).drop (digitCount (front ++ behind)) =
      front.drop (digitCount front) ++ behind := by
    rw [← hdigits, List.drop_append_of_le_length (digitCount_le front)]
  have hlength : (front.drop (digitCount front)).length = front.length - digitCount front :=
    List.length_drop
  by_cases hpoint : '.' ∈ ((front ++ behind).drop (digitCount (front ++ behind))).head?
  · obtain ⟨rest, hrest⟩ := List.head?_eq_some_iff.1 hpoint
    rw [munchNumber_of_point hrest] at h
    obtain ⟨hsome, heq⟩ := Option.ite_none_left_eq_some.1 h
    obtain ⟨rfl, rfl⟩ := Prod.mk.inj (Option.some.inj heq)
    rw [hdrop] at hrest
    obtain ⟨r, hr, rfl⟩ : ∃ r, front.drop (digitCount front) = '.' :: r ∧ r ++ behind = rest := by
      rcases hfront : front.drop (digitCount front) with - | ⟨c, r⟩
      · rw [hfront, List.length_nil] at hlength
        omega
      · rw [hfront, List.cons_append] at hrest
        obtain ⟨rfl, rfl⟩ := List.cons.inj hrest
        exact ⟨r, rfl, rfl⟩
    rw [hr, List.length_cons] at hlength
    have hplaces : digitCount r = digitCount (r ++ behind) := digitCount_of_append (by omega)
    have hrdrop : (r ++ behind).drop (digitCount (r ++ behind)) = r.drop (digitCount r) ++ behind :=
      by rw [← hplaces, List.drop_append_of_le_length (digitCount_le r)]
    have hexponent : exponentLength (r.drop (digitCount r)) =
        exponentLength (r.drop (digitCount r) ++ behind) := by
      refine exponentLength_of_append ?_
      rw [← hrdrop, List.length_drop]
      omega
    rw [munchNumber_of_point hr, hexponent, ← hrdrop, hdigits, hplaces]
    exact h
  · have hpoint' : '.' ∉ (front.drop (digitCount front)).head? := by
      rw [hdrop] at hpoint
      rcases hfront : front.drop (digitCount front) with - | ⟨c, r⟩
      · simp
      · rwa [hfront] at hpoint
    rw [munchNumber_of_no_point hpoint, hdrop, ← hdigits] at h
    have hexponent : exponentLength (front.drop (digitCount front)) =
        exponentLength (front.drop (digitCount front) ++ behind) := by
      refine exponentLength_of_append ?_
      by_cases hzero : exponentLength (front.drop (digitCount front) ++ behind) = 0
      · omega
      · rw [if_neg hzero] at h
        obtain ⟨-, heq⟩ := Option.ite_none_left_eq_some.1 h
        obtain ⟨rfl, rfl⟩ := Prod.mk.inj (Option.some.inj heq)
        omega
    rw [munchNumber_of_no_point hpoint', hexponent]
    exact h

/-- A number does not come from what is cut off behind it. -/
theorem munchNumber_eq_none_of_append (h : munchNumber (front ++ behind) = none) :
    munchNumber front = none := by
  have hwhole : digitCount (front ++ behind) = 0 := by
    by_cases hpoint : '.' ∈ ((front ++ behind).drop (digitCount (front ++ behind))).head?
    · obtain ⟨rest, hrest⟩ := List.head?_eq_some_iff.1 hpoint
      simp only [munchNumber_of_point hrest, ite_eq_left_iff, reduceCtorEq, imp_false,
        not_not] at h
      exact h.1
    · rw [munchNumber_of_no_point hpoint] at h
      by_contra hne
      rw [if_neg hne] at h
      split at h <;> exact absurd h (by simp)
  have hzero : digitCount front = 0 :=
    Nat.le_zero.1 ((digitCount_le_append front behind).trans hwhole.le)
  by_cases hpoint : '.' ∈ (front.drop (digitCount front)).head?
  · obtain ⟨r, hr⟩ := List.head?_eq_some_iff.1 hpoint
    have hrest : (front ++ behind).drop (digitCount (front ++ behind)) = '.' :: (r ++ behind) := by
      rw [hzero, List.drop_zero] at hr
      rw [hwhole, List.drop_zero, hr, List.cons_append]
    simp only [munchNumber_of_point hrest, ite_eq_left_iff, reduceCtorEq, imp_false,
      not_not] at h
    have hplaces := digitCount_le_append r behind
    rw [munchNumber_of_point hr, if_pos ⟨hzero, by omega⟩]
  · rw [munchNumber_of_no_point hpoint, if_pos hzero]

/-- A sign that does not reach beyond a place is the same without what stands behind it. -/
theorem munchSign_of_append {k : Kind} {n : Nat} (h : munchSign (front ++ behind) = some (k, n))
    (hn : n ≤ front.length) : munchSign front = some (k, n) := by
  obtain ⟨s, hs, heq⟩ := Option.map_eq_some_iff.1 h
  obtain ⟨rfl, rfl⟩ := Prod.mk.inj heq
  obtain ⟨hfound, before, after, hsigns, hbefore⟩ := List.find?_eq_some_iff_append.1 hs
  have hbegins : s.1.isPrefixOf front = true := by
    rw [List.isPrefixOf_iff_prefix] at hfound ⊢
    exact List.prefix_of_prefix_length_le hfound (List.prefix_append front behind) hn
  refine Option.map_eq_some_iff.2 ⟨s, List.find?_eq_some_iff_append.2
    ⟨hbegins, before, after, hsigns, fun u hu ↦ ?_⟩, rfl⟩
  have hnot := hbefore u hu
  rw [Bool.not_eq_true', ← Bool.not_eq_true, List.isPrefixOf_iff_prefix] at hnot ⊢
  exact fun hp ↦ hnot (hp.trans (List.prefix_append front behind))

/-- A token that does not reach beyond a place is the same without what stands behind it. -/
theorem munch_of_append {c : Char} (hc : c ≠ '\n') {k : Kind} {n : Nat}
    (h : munch (c :: front ++ behind) = some (k, n)) (hn : n ≤ (c :: front).length) :
    munch (c :: front) = some (k, n) := by
  rw [List.cons_append, munch, if_neg hc] at h
  rw [munch, if_neg hc]
  split at h
  · rename_i hstart
    obtain ⟨rfl, rfl⟩ := Prod.mk.inj (Option.some.inj h)
    rw [if_pos hstart, takeWhile_of_append hn]
    rfl
  · rename_i hstart
    rw [if_neg hstart]
    split at h
    · rename_i hquote
      obtain ⟨m, hm, heq⟩ := Option.map_eq_some_iff.1 h
      obtain ⟨rfl, rfl⟩ := Prod.mk.inj heq
      rw [if_pos hquote, (closingQuote_eq_some_iff behind).2 ⟨hm, Nat.le_of_succ_le_succ hn⟩]
      rfl
    · rename_i hquote
      rw [if_neg hquote]
      rcases Option.or_eq_some_iff.1 h with h | ⟨hnone, h⟩
      · rw [munchNumber_of_append h hn, Option.some_or]
      · rw [munchNumber_eq_none_of_append hnone, Option.none_or, munchSign_of_append h hn]

end Cut

end Sangria
