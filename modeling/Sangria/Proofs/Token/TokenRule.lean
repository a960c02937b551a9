import Sangria.Proofs.Token.Joining
import Sangria.Proofs.Token.Pattern
import Sangria.Proofs.Token.RealLiteral

/-!
# The rules for tokens

Each kind of token is one rule, and comments are one more. A rule has a pattern, which says what the
rule stands for, and a length, which is what munching finds: that of the one text it would take at
the start of another. The length is the one that trying the pattern finds, and no match of the
pattern is longer (`TokenRule.finds_length?`).

For most rules that is so because their patterns leave no choice. A real literal has one: behind its
digits there may be a point, an exponent, or both. It comes to nothing, because neither of the two
begins with a digit (`TokenRule.rests_digits_seq`, `TokenRule.rejects_exponent`).
-/

namespace Sangria

/-- A length that was counted, if there was anything to count. -/
def counted (n : Nat) : Option Nat :=
  if n = 0 then none else some n

theorem counted_of_pos {n : Nat} (h : 0 < n) : counted n = some n :=
  if_neg (Nat.ne_of_gt h)

theorem counted_eq_some_iff {n m : Nat} : counted n = some m ↔ n = m ∧ 0 < n := by
  rw [counted]
  split
  · simp_all
  · simp only [Option.some.injEq, iff_self_and]
    omega

/-- Something longer is counted if there is anything to count behind it. -/
theorem map_counted (k n : Nat) :
    (counted n).map (k + ·) = counted (if n = 0 then 0 else n + k) := by
  by_cases hn : n = 0
  · rw [hn]
    rfl
  · rw [counted_of_pos (Nat.pos_of_ne_zero hn), if_neg hn, counted_of_pos (by omega),
      Nat.add_comm n]
    rfl

/-- A rule for a token or a comment. -/
inductive TokenRule
  /-- A comment. -/
  | comment
  /-- A literal for a real number. -/
  | real
  /-- A literal for an integer. -/
  | integer
  /-- A quoted text. -/
  | quoted
  /-- A name or a reserved word. -/
  | word
  /-- The newlines at the end of a line. -/
  | lineEnd
  /-- A sign and its kind. -/
  | sign (s : List Char) (k : Kind)
  deriving DecidableEq

namespace TokenRule

open Pattern

/-! ### The patterns -/

/-- Digits in a row. -/
def digits : Pattern :=
  plus (one isAsciiDigit)

/-- An exponent: its letter, perhaps a sign, and digits. -/
def exponent : Pattern :=
  seq (one fun c ↦ c = 'e' ∨ c = 'E') (seq (opt (one fun c ↦ c = '+' ∨ c = '-')) digits)

/-- A piece of what stands between quotes `q`: a character that is neither such a quote nor a
backslash, or a backslash with the character behind it. No newline is part of either. -/
def quotedPiece (q : Char) : Pattern :=
  alt (one fun c ↦ c ≠ q ∧ c ≠ '\\' ∧ c ≠ '\n') (seq (char '\\') (one (· ≠ '\n')))

/-- Pieces between quotes `q`. -/
def quotedBy (q : Char) : Pattern :=
  seq (char q) (seq (star (quotedPiece q)) (char q))

/-- What a rule stands for. -/
def pattern : TokenRule → Pattern
  | comment => seq (char '#') (star (one (· ≠ '\n')))
  | real => alt (seq (alt (seq digits (seq (char '.') (star (one isAsciiDigit))))
      (seq (char '.') digits)) (opt exponent)) (seq digits exponent)
  | integer => digits
  | quoted => alt (quotedBy '"') (quotedBy '\'')
  | word => seq (one isWordStart) (star (one isWordChar))
  | lineEnd => plus (char '\n')
  | sign s _ => Pattern.word s

/-- How much a rule takes at the start of a text, if it takes anything there. -/
def length? (text : List Char) : TokenRule → Option Nat
  | comment => counted (commentLength text)
  | real => (munchNumber text).bind fun m ↦ if m.1 = .literal .float then some m.2 else none
  | integer => counted (digitCount text)
  | quoted => match text with
    | [] => none
    | q :: rest => if q = '"' ∨ q = '\'' then (closingQuote q rest).map (1 + ·) else none
  | word => match text with
    | [] => none
    | c :: _ => if isWordStart c then some (text.takeWhile isWordChar).length else none
  | lineEnd => counted (text.takeWhile (· = '\n')).length
  | sign s _ => if s <+: text then some s.length else none

/-! ### Characters in a row -/

variable {b : Pattern} {p : Char → Bool} {c q : Char} {text rest : List Char}

theorem length_takeWhile_le (p : Char → Bool) (text : List Char) :
    (text.takeWhile p).length ≤ text.length :=
  (List.takeWhile_sublist p).length_le

/-- All characters of a kind are found. -/
theorem finds_star_one (p : Char → Bool) (text : List Char) :
    (star (one p)).Finds text (some (text.takeWhile p).length) :=
  ⟨length_takeWhile_le p text, by rw [drop_length_takeWhile]; exact led_star_one p text⟩

/-- A character is found with what is found behind it. -/
theorem finds_seq_one {found : Option Nat} (h : p c = true) (hb : b.Finds rest found) :
    (seq (one p) b).Finds (c :: rest) (found.map (1 + ·)) :=
  .of_cons hb (rests_seq_one_of_pos h b rest)

theorem finds_plus_one (p : Char → Bool) (text : List Char) :
    (plus (one p)).Finds text (counted (text.takeWhile p).length) := by
  rcases text with - | ⟨c, rest⟩
  · rfl
  by_cases hc : p c = true
  · rw [List.takeWhile_cons_of_pos hc, List.length_cons, counted_of_pos (Nat.succ_pos _),
      ← Nat.one_add]
    exact finds_seq_one hc (finds_star_one p rest)
  · rw [List.takeWhile_cons_of_neg hc]
    exact rests_seq_one_of_neg (Bool.eq_false_iff.2 hc) _ rest

/-! ### Numbers -/

theorem drop_digitCount (text : List Char) :
    text.drop (digitCount text) = text.dropWhile isAsciiDigit :=
  drop_length_takeWhile isAsciiDigit text

theorem digitCount_cons_of_pos (h : isAsciiDigit c = true) (rest : List Char) :
    digitCount (c :: rest) = digitCount rest + 1 := by
  rw [digitCount, List.takeWhile_cons_of_pos h]
  rfl

theorem digitCount_cons_of_neg (h : isAsciiDigit c = false) (rest : List Char) :
    digitCount (c :: rest) = 0 := by
  rw [digitCount, List.takeWhile_cons_of_neg (by simp [h])]
  rfl

/-- What begins with a character that is no digit does not match where a digit stands. -/
theorem rejects_seq_one (h : ∀ c, isAsciiDigit c = true → p c = false) (b : Pattern) :
    (seq (one p) b).Rejects isAsciiDigit :=
  fun c hc rest ↦ rests_seq_one_of_neg (h c hc) b rest

theorem rejects_point (b : Pattern) : (seq (char '.') b).Rejects isAsciiDigit := by
  refine rejects_seq_one (fun c hc ↦ decide_eq_false ?_) b
  rintro rfl
  exact absurd hc (by decide)

theorem rejects_exponent : exponent.Rejects isAsciiDigit := by
  refine rejects_seq_one (fun c hc ↦ decide_eq_false ?_) _
  rintro (rfl | rfl) <;> exact absurd hc (by decide)

/-- What does not begin with a digit matches only behind all digits. -/
theorem rests_digits_seq (hb : b.Rejects isAsciiDigit) (text : List Char) :
    (seq digits b).rests text =
      if digitCount text = 0 then [] else b.rests (text.drop (digitCount text)) := by
  rcases text with - | ⟨c, rest⟩
  · rfl
  rw [digits, plus, rests_seq_assoc]
  by_cases hc : isAsciiDigit c = true
  · rw [rests_seq_one_of_pos hc, hb.rests_seq_star, digitCount_cons_of_pos hc,
      if_neg (Nat.succ_ne_zero _), List.drop_succ_cons, drop_digitCount]
  · have hc := Bool.eq_false_iff.2 hc
    rw [rests_seq_one_of_neg hc, digitCount_cons_of_neg hc, if_pos rfl]

theorem finds_exponent (text : List Char) :
    exponent.Finds text (counted (exponentLength text)) := by
  rcases text with - | ⟨e, rest⟩
  · rfl
  by_cases he : e = 'e' ∨ e = 'E'
  · rcases rest with - | ⟨c, rest⟩
    · have hzero : exponentLength [e] = 0 := if_pos he
      rw [hzero]
      exact rests_seq_one_of_pos (decide_eq_true he) _ []
    by_cases hc : c = '+' ∨ c = '-'
    · have hdigit : isAsciiDigit c = false := by
        rcases hc with rfl | rfl <;> rfl
      rw [exponentLength_of_sign he hc, ← map_counted]
      refine .of_drop (by simp) (finds_plus_one isAsciiDigit rest) ?_
      rw [exponent, rests_seq_one_of_pos (decide_eq_true he),
        rests_opt_one_seq_of_pos (decide_eq_true hc), digits, plus, rests_seq_one_of_neg hdigit,
        List.append_nil]
      rfl
    · rw [exponentLength_of_no_sign he hc, ← map_counted]
      refine .of_drop (by simp) (finds_plus_one isAsciiDigit (c :: rest)) ?_
      rw [exponent, rests_seq_one_of_pos (decide_eq_true he),
        rests_opt_one_seq_of_neg (decide_eq_false hc)]
      rfl
  · have hzero : exponentLength (e :: rest) = 0 := if_neg he
    rw [hzero]
    exact rests_seq_one_of_neg (decide_eq_false he) _ rest

/-- Digits that may be missing, and an exponent that may be missing, are found. -/
theorem finds_places_exponent (text : List Char) :
    (seq (star (one isAsciiDigit)) (opt exponent)).Finds text
      (some (digitCount text + exponentLength (text.drop (digitCount text)))) := by
  have hle := exponentLength_le (text.drop (digitCount text))
  have hcount := digitCount_le text
  rw [List.length_drop] at hle
  refine ⟨by omega, ?_⟩
  rw [rejects_exponent.rests_seq_star_opt, ← List.drop_drop, drop_digitCount]
  have hexponent := finds_exponent (text.dropWhile isAsciiDigit)
  have hdigits := led_star_one isAsciiDigit text
  rcases Nat.eq_zero_or_pos (exponentLength (text.dropWhile isAsciiDigit)) with hzero | hpos
  · rw [hzero] at hexponent ⊢
    rwa [show exponent.rests _ = [] from hexponent]
  · rw [counted_of_pos hpos] at hexponent
    exact hexponent.2.append fun s hs ↦
      Nat.le_trans (List.drop_sublist _ _).length_le (hdigits.shortest s hs)

/-- Digits with an exponent that may be missing are found. -/
theorem finds_digits_exponent (text : List Char) :
    (seq digits (opt exponent)).Finds text (if digitCount text = 0 then none else
      some (digitCount text + exponentLength (text.drop (digitCount text)))) := by
  rcases text with - | ⟨c, rest⟩
  · rfl
  by_cases hc : isAsciiDigit c = true
  · rw [digitCount_cons_of_pos hc, if_neg (Nat.succ_ne_zero _), List.drop_succ_cons,
      Nat.add_right_comm, Nat.add_comm _ 1]
    refine .of_cons (finds_places_exponent rest) ?_
    rw [digits, plus, rests_seq_assoc, rests_seq_one_of_pos hc]
  · have hc := Bool.eq_false_iff.2 hc
    rw [digitCount_cons_of_neg hc, if_pos rfl]
    show (seq digits (opt exponent)).rests (c :: rest) = []
    rw [digits, plus, rests_seq_assoc, rests_seq_one_of_neg hc]

/-- The ways to match a real literal: digits with a point behind them, a point with digits behind
it, and digits with an exponent. -/
theorem rests_real (text : List Char) :
    real.pattern.rests text =
      ((seq digits (seq (seq (char '.') (star (one isAsciiDigit))) (opt exponent))).rests text ++
        (seq (char '.') (seq digits (opt exponent))).rests text) ++
      (seq digits exponent).rests text := by
  rw [pattern, rests_alt, rests_alt_seq, rests_seq_assoc, rests_seq_assoc (char '.')]

theorem rejects_point_places :
    (seq (seq (char '.') (star (one isAsciiDigit))) (opt exponent)).Rejects isAsciiDigit := by
  intro c hc rest
  rw [rests_seq_assoc]
  exact rejects_point _ c hc rest

/-- A real literal with a point is found. -/
theorem finds_real_of_point (h : text.drop (digitCount text) = '.' :: rest) :
    real.pattern.Finds text (real.length? text) := by
  rw [length?, munchNumber_of_point h]
  by_cases hwhole : digitCount text = 0
  · rw [hwhole, List.drop_zero] at h
    subst h
    have hdigits := finds_digits_exponent rest
    have hrests : real.pattern.rests ('.' :: rest) = (seq digits (opt exponent)).rests rest := by
      rw [rests_real, rests_digits_seq rejects_point_places, if_pos hwhole,
        rests_seq_char, rests_digits_seq rejects_exponent, if_pos hwhole, List.nil_append,
        List.append_nil]
    have hfound := hdigits.of_cons hrests
    by_cases hplaces : digitCount rest = 0
    · rw [if_pos hplaces] at hfound
      rwa [if_pos ⟨hwhole, hplaces⟩]
    · rw [if_neg hplaces, Option.map_some, ← Nat.add_assoc] at hfound
      rw [if_neg fun h ↦ hplaces h.2, hwhole, Nat.zero_add]
      exact hfound
  · have hrests : real.pattern.rests text =
        (seq (star (one isAsciiDigit)) (opt exponent)).rests rest := by
      have hhead : (seq (char '.') (seq digits (opt exponent))).rests text = [] := by
        rcases text with - | ⟨c, behind⟩
        · rfl
        · refine rejects_point _ c (by_contra fun hc ↦ hwhole ?_) behind
          exact digitCount_cons_of_neg (Bool.eq_false_iff.2 hc) behind
      rw [rests_real, rests_digits_seq rejects_point_places, if_neg hwhole, h, rests_seq_assoc,
        rests_seq_char, hhead, rests_digits_seq rejects_exponent, if_neg hwhole, h, exponent,
        rests_seq_one_of_neg (by rfl), List.append_nil, List.append_nil]
    have hdrop : text.drop (digitCount text + 1) = rest := by
      rw [← List.drop_drop, h]
      rfl
    have hle : digitCount text + 1 ≤ text.length := by
      have hlength := congrArg List.length h
      rw [List.length_drop, List.length_cons] at hlength
      omega
    rw [← hdrop] at hrests
    have hfound := (finds_places_exponent _).of_drop hle hrests
    rw [hdrop] at hfound
    rw [if_neg fun h ↦ hwhole h.1, Nat.add_assoc (digitCount text + 1)]
    exact hfound

/-- A real literal without a point is found. -/
theorem finds_real_of_no_point (h : '.' ∉ (text.drop (digitCount text)).head?) :
    real.pattern.Finds text (real.length? text) := by
  have hpoint (b : Pattern) {text : List Char} (h : '.' ∉ text.head?) :
      (seq (char '.') b).rests text = [] := by
    rcases text with - | ⟨c, rest⟩
    · rfl
    · exact rests_seq_char_of_ne (fun hc ↦ h (congrArg some hc)) b rest
  have hhead : '.' ∉ text.head? := by
    rcases text with - | ⟨c, rest⟩
    · exact h
    · intro hc
      obtain rfl := Option.some.inj hc
      exact h (by rw [digitCount_cons_of_neg (by rfl)]; rfl)
  have hrests : real.pattern.rests text = (seq digits exponent).rests text := by
    rw [rests_real, rests_digits_seq rejects_point_places, rests_seq_assoc, hpoint _ h, ite_self,
      hpoint _ hhead, List.nil_append, List.nil_append]
  rw [rests_digits_seq rejects_exponent] at hrests
  rw [length?, munchNumber_of_no_point h]
  by_cases hwhole : digitCount text = 0
  · rw [if_pos hwhole] at hrests ⊢
    exact hrests
  · rw [if_neg hwhole] at hrests ⊢
    have hfound := (finds_exponent _).of_drop (digitCount_le text) hrests
    by_cases hzero : exponentLength (text.drop (digitCount text)) = 0
    · rw [hzero] at hfound
      rwa [if_pos hzero]
    · rw [counted_of_pos (Nat.pos_of_ne_zero hzero)] at hfound
      rwa [if_neg hzero]

theorem finds_real (text : List Char) : real.pattern.Finds text (real.length? text) := by
  by_cases h : '.' ∈ (text.drop (digitCount text)).head?
  · obtain ⟨rest, hrest⟩ := List.head?_eq_some_iff.1 h
    exact finds_real_of_point hrest
  · exact finds_real_of_no_point h

/-! ### Quoted texts -/

theorem rests_quotedPiece_backslash (q : Char) (text : List Char) :
    (quotedPiece q).rests ('\\' :: text) = (one (· ≠ '\n')).rests text := by
  rw [quotedPiece, rests_alt, rests_one_of_neg (by simp), rests_seq_char, List.nil_append]

theorem rests_quotedPiece_of_ne_backslash (hc : c ≠ '\\') (rest : List Char) :
    (quotedPiece q).rests (c :: rest) = if c ≠ q ∧ c ≠ '\n' then [rest] else [] := by
  rw [quotedPiece, rests_alt, rests_seq_char_of_ne hc, List.append_nil, rests]
  simp only [hc, ne_eq, not_false_eq_true, true_and, decide_eq_true_eq]

theorem rests_char_of_ne (hc : c ≠ q) (rest : List Char) : (char q).rests (c :: rest) = [] :=
  rests_one_of_neg (decide_eq_false hc) rest

/-- Behind an opening quote, trying goes from piece to piece up to the closing one. -/
theorem rests_closingQuote (hq : q ≠ '\\') (text : List Char) :
    (seq (star (quotedPiece q)) (char q)).rests text =
      ((closingQuote q text).map fun n ↦ text.drop n).toList := by
  have hbackslash (rest : List Char) : (char q).rests ('\\' :: rest) = [] :=
    rests_char_of_ne hq.symm rest
  induction text using quoted_induction with
  | nil => rfl
  | lone =>
    rw [rests_seq_star_of_nil (rests_quotedPiece_backslash q [])]
    exact hbackslash []
  | pair c rest ih =>
    have hpiece : (quotedPiece q).rests ('\\' :: c :: rest) = (one (· ≠ '\n')).rests (c :: rest) :=
      rests_quotedPiece_backslash q _
    by_cases hc : c = '\n'
    · rw [rests_one_of_neg (by simpa using hc)] at hpiece
      rw [rests_seq_star_of_nil hpiece, hbackslash, closingQuote, if_pos hc]
      rfl
    · rw [rests_one_of_pos (by simpa using hc)] at hpiece
      have hlt : rest.length < ('\\' :: c :: rest).length :=
        Nat.lt_succ_of_lt (Nat.lt_succ_self _)
      rw [rests_seq_star_of_singleton hpiece hlt (hbackslash _), ih, closingQuote, if_neg hc,
        Option.map_map]
      rfl
  | plain c rest hc ih =>
    have hpiece := rests_quotedPiece_of_ne_backslash (q := q) hc rest
    rw [closingQuote_of_ne_backslash hc]
    by_cases hclose : c = q
    · rw [if_neg fun h ↦ h.1 hclose] at hpiece
      rw [rests_seq_star_of_nil hpiece, if_pos hclose]
      exact rests_one_of_pos (decide_eq_true hclose) rest
    by_cases hline : c = '\n'
    · rw [if_neg fun h ↦ h.2 hline] at hpiece
      rw [rests_seq_star_of_nil hpiece, if_neg hclose, if_pos hline]
      exact rests_char_of_ne hclose rest
    · rw [if_pos ⟨hclose, hline⟩] at hpiece
      rw [rests_seq_star_of_singleton hpiece (Nat.lt_succ_self _) (rests_char_of_ne hclose rest),
        ih, if_neg hclose, if_neg hline, Option.map_map]
      rfl

/-- A text is found between quotes. -/
theorem finds_quotedBy (hq : q ≠ '\\') (rest : List Char) :
    (quotedBy q).Finds (q :: rest) ((closingQuote q rest).map (1 + ·)) :=
  finds_seq_one (decide_eq_true rfl)
    (.of_rests_eq (fun _ h ↦ (closingQuote_length h).2) (rests_closingQuote hq rest))

theorem finds_quoted (text : List Char) : quoted.pattern.Finds text (quoted.length? text) := by
  rcases text with - | ⟨c, rest⟩
  · rfl
  have hne {q : Char} (hc : c ≠ q) : (quotedBy q).rests (c :: rest) = [] :=
    rests_seq_char_of_ne hc _ rest
  by_cases hc : c = '"' ∨ c = '\''
  · have hrests : quoted.pattern.rests (c :: rest) = (quotedBy c).rests (c :: rest) := by
      rw [pattern, rests_alt]
      rcases hc with rfl | rfl
      · rw [hne (q := '\'') (by decide), List.append_nil]
      · rw [hne (q := '"') (by decide), List.nil_append]
    have hback : c ≠ '\\' := by
      rcases hc with rfl | rfl <;> decide
    rw [length?, if_pos hc]
    exact (finds_quotedBy hback rest).congr hrests
  · rw [length?, if_neg hc]
    show (quotedBy '"').rests (c :: rest) ++ (quotedBy '\'').rests (c :: rest) = []
    rw [hne fun h ↦ hc (.inl h), hne fun h ↦ hc (.inr h), List.append_nil]

/-! ### Every rule -/

theorem finds_comment (text : List Char) : comment.pattern.Finds text (comment.length? text) := by
  rcases text with - | ⟨c, rest⟩
  · rfl
  by_cases hc : c = '#'
  · subst hc
    rw [length?, commentLength, counted_of_pos (Nat.add_pos_left Nat.one_pos _)]
    exact finds_seq_one (decide_eq_true rfl) (finds_star_one _ rest)
  · rw [length?, commentLength_eq_zero hc]
    exact rests_seq_char_of_ne hc _ rest

theorem finds_word (text : List Char) : word.pattern.Finds text (word.length? text) := by
  rcases text with - | ⟨c, rest⟩
  · rfl
  by_cases hc : isWordStart c = true
  · rw [length?, if_pos hc, List.takeWhile_cons_of_pos (isWordStart_iff.1 hc).1, List.length_cons,
      Nat.add_comm]
    exact finds_seq_one hc (finds_star_one isWordChar rest)
  · rw [length?, if_neg hc]
    exact rests_seq_one_of_neg (Bool.eq_false_iff.2 hc) _ rest

theorem finds_sign (s : List Char) (k : Kind) (text : List Char) :
    (sign s k).pattern.Finds text ((sign s k).length? text) := by
  rw [length?, pattern]
  split
  · rename_i hs
    refine .of_rests_eq (fun n hn ↦ ?_) ((rests_word s text).trans (if_pos hs))
    obtain rfl := Option.some.inj hn
    exact hs.length_le
  · rename_i hs
    exact (rests_word s text).trans (if_neg hs)

/-- Trying the pattern of a rule finds as much as the rule takes, and nothing longer matches. -/
theorem finds_length? (r : TokenRule) (text : List Char) :
    r.pattern.Finds text (r.length? text) := by
  cases r with
  | comment => exact finds_comment text
  | real => exact finds_real text
  | integer => exact finds_plus_one isAsciiDigit text
  | quoted => exact finds_quoted text
  | word => exact finds_word text
  | lineEnd => exact finds_plus_one _ text
  | sign s k => exact finds_sign s k text

end TokenRule

end Sangria
