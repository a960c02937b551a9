import Mathlib.Data.List.Basic
import Mathlib.Data.List.TakeWhile

/-!
# Patterns

A pattern is a regular expression over characters, and says which texts it matches
(`Pattern.Matches`). At the start of a text it is matched by trying: where there is a choice, the
first part first and as much as possible first, and where a later part fails, the next choice.
`Pattern.rests` gives what is left of the text after each way of trying that gets to the end, in the
order of the tries. Those are all the ways to match (`Pattern.mem_rests_iff`), and the first of them
is the one that is found.

The one that is found need not be the longest. It is for a pattern that finds a length in the sense
of `Pattern.Finds`, which says of a text how much is found there and that no other way takes more.
-/

namespace Sangria

/-- A regular expression. -/
inductive Pattern
  /-- Nothing. -/
  | empty
  /-- One character of some kind. -/
  | one (p : Char → Bool)
  /-- One pattern behind another. -/
  | seq (a b : Pattern)
  /-- One pattern, or else another. -/
  | alt (a b : Pattern)
  /-- A pattern any number of times. -/
  | star (a : Pattern)

namespace Pattern

/-- A pattern once or not at all. -/
def opt (a : Pattern) : Pattern :=
  alt a empty

/-- A pattern once or more. -/
def plus (a : Pattern) : Pattern :=
  seq a (star a)

/-- A given character. -/
def char (c : Char) : Pattern :=
  one (· = c)

/-- Given characters in a row. -/
def word : List Char → Pattern
  | [] => empty
  | c :: rest => seq (char c) (word rest)

/-- A pattern matches a text. -/
inductive Matches : Pattern → List Char → Prop
  /-- Nothing matches the empty text. -/
  | empty : Matches empty []
  /-- A character matches if it is of the kind. -/
  | one {p : Char → Bool} {c : Char} (h : p c = true) : Matches (one p) [c]
  /-- Texts that match stand one behind the other. -/
  | seq {a b : Pattern} {s t : List Char} (first : Matches a s) (second : Matches b t) :
      Matches (seq a b) (s ++ t)
  /-- The first choice. -/
  | left {a b : Pattern} {s : List Char} (h : Matches a s) : Matches (alt a b) s
  /-- The second choice. -/
  | right {a b : Pattern} {s : List Char} (h : Matches b s) : Matches (alt a b) s
  /-- No more times. -/
  | nil {a : Pattern} : Matches (star a) []
  /-- Once more. -/
  | more {a : Pattern} {s t : List Char} (first : Matches a s) (later : Matches (star a) t) :
      Matches (star a) (s ++ t)

/-! ### Trying -/

/-- What is left when something is tried again and again, at most a number of times: each time that
takes a character is tried before stopping. -/
def repeated (f : List Char → List (List Char)) : Nat → List Char → List (List Char)
  | 0, text => [text]
  | n + 1, text => ((f text).filter (·.length < text.length)).flatMap (repeated f n) ++ [text]

/-- What is left of a text after each way to match a pattern at its start, in the order in which the
ways are tried. -/
def rests : Pattern → List Char → List (List Char)
  | empty => fun text ↦ [text]
  | one p => fun
    | [] => []
    | c :: rest => if p c then [rest] else []
  | seq a b => fun text ↦ (a.rests text).flatMap b.rests
  | alt a b => fun text ↦ a.rests text ++ b.rests text
  | star a => fun text ↦ repeated a.rests text.length text

variable {a b : Pattern} {p q : Char → Bool} {c : Char} {text rest taken : List Char}

theorem rests_seq (a b : Pattern) (text : List Char) :
    (seq a b).rests text = (a.rests text).flatMap b.rests :=
  rfl

theorem rests_alt (a b : Pattern) (text : List Char) :
    (alt a b).rests text = a.rests text ++ b.rests text :=
  rfl

theorem rests_one_of_pos (h : p c = true) (rest : List Char) : (one p).rests (c :: rest) = [rest] :=
  if_pos h

theorem rests_one_of_neg (h : p c = false) (rest : List Char) : (one p).rests (c :: rest) = [] :=
  if_neg (by simp [h])

/-- Behind a character, the rest of a pattern is tried on the rest of the text. -/
theorem rests_seq_one_of_pos (h : p c = true) (b : Pattern) (rest : List Char) :
    (seq (one p) b).rests (c :: rest) = b.rests rest := by
  rw [rests_seq, rests_one_of_pos h, List.flatMap_singleton]

theorem rests_seq_one_of_neg (h : p c = false) (b : Pattern) (rest : List Char) :
    (seq (one p) b).rests (c :: rest) = [] := by
  rw [rests_seq, rests_one_of_neg h, List.flatMap_nil]

theorem rests_seq_char (c : Char) (b : Pattern) (rest : List Char) :
    (seq (char c) b).rests (c :: rest) = b.rests rest :=
  rests_seq_one_of_pos (decide_eq_true rfl) b rest

theorem rests_seq_char_of_ne {d : Char} (h : d ≠ c) (b : Pattern) (rest : List Char) :
    (seq (char c) b).rests (d :: rest) = [] :=
  rests_seq_one_of_neg (decide_eq_false h) b rest

theorem rests_seq_assoc (a b c : Pattern) (text : List Char) :
    (seq (seq a b) c).rests text = (seq a (seq b c)).rests text := by
  rw [rests_seq, rests_seq, List.flatMap_assoc]
  rfl

theorem rests_alt_seq (a b c : Pattern) (text : List Char) :
    (seq (alt a b) c).rests text = (seq a c).rests text ++ (seq b c).rests text := by
  rw [rests_seq, rests_alt, List.flatMap_append]
  rfl

/-- A character that may be missing is tried before it is left out. -/
theorem rests_opt_one_seq_of_pos (h : p c = true) (b : Pattern) (rest : List Char) :
    (seq (opt (one p)) b).rests (c :: rest) = b.rests rest ++ b.rests (c :: rest) := by
  rw [opt, rests_alt_seq, rests_seq_one_of_pos h, rests_seq empty, rests, List.flatMap_singleton]

theorem rests_opt_one_seq_of_neg (h : p c = false) (b : Pattern) (rest : List Char) :
    (seq (opt (one p)) b).rests (c :: rest) = b.rests (c :: rest) := by
  rw [opt, rests_alt_seq, rests_seq_one_of_neg h, rests_seq empty, rests, List.flatMap_singleton,
    List.nil_append]

/-- Given characters match in one way, if the text begins with them. -/
theorem rests_word (s text : List Char) :
    (word s).rests text = if s <+: text then [text.drop s.length] else [] := by
  induction s generalizing text with
  | nil => exact (if_pos List.nil_prefix).symm
  | cons c s ih =>
    rcases text with - | ⟨d, text⟩
    · exact (if_neg (by simp)).symm
    · by_cases hd : d = c
      · subst hd
        rw [word, rests_seq_char, ih]
        simp only [List.prefix_cons_inj, List.length_cons, List.drop_succ_cons]
      · rw [word, rests_seq_char_of_ne hd, if_neg]
        exact fun hbegins ↦ hd (List.cons_prefix_cons.1 hbegins).1.symm

/-- A repetition leaves what repeated matches leave, if it may be tried as often as there are
characters. -/
theorem mem_repeated_iff (ha : ∀ text rest, rest ∈ a.rests text ↔
      ∃ taken, a.Matches taken ∧ text = taken ++ rest) {n : Nat} (hn : text.length ≤ n) :
    rest ∈ repeated a.rests n text ↔ ∃ taken, (star a).Matches taken ∧ text = taken ++ rest := by
  constructor
  · intro h
    clear hn
    induction n generalizing text with
    | zero => exact ⟨[], .nil, (List.mem_singleton.1 h).symm⟩
    | succ n ih =>
      rcases List.mem_append.1 h with h | h
      · obtain ⟨mid, hmid, hlater⟩ := List.mem_flatMap.1 h
        obtain ⟨s, hs, rfl⟩ := (ha text mid).1 (List.mem_filter.1 hmid).1
        obtain ⟨t, ht, rfl⟩ := ih hlater
        exact ⟨s ++ t, .more hs ht, (List.append_assoc _ _ _).symm⟩
      · exact ⟨[], .nil, (List.mem_singleton.1 h).symm⟩
  · rintro ⟨taken, h, rfl⟩
    generalize hp : star a = p at h
    induction h generalizing n with
    | empty | one | seq | left | right => exact nomatch hp
    | nil =>
      rcases n with - | n
      · exact List.mem_singleton.2 rfl
      · exact List.mem_append_right _ (List.mem_singleton.2 rfl)
    | @more a' s t hs ht _ ih =>
      obtain rfl : a = a' := star.inj hp
      rw [List.append_assoc] at hn ⊢
      rw [List.length_append] at hn
      rcases s with - | ⟨c, s⟩
      · -- nothing was taken this time
        exact ih (by simpa using hn) rfl
      · rw [List.length_cons] at hn
        obtain ⟨n, rfl⟩ : ∃ n', n = n' + 1 := ⟨n - 1, by omega⟩
        refine List.mem_append_left _ (List.mem_flatMap.2 ⟨t ++ rest, ?_, ih (by omega) rfl⟩)
        refine List.mem_filter.2 ⟨(ha _ _).2 ⟨_, hs, rfl⟩, ?_⟩
        simp only [List.length_append, List.length_cons, decide_eq_true_eq]
        omega

/-- What is left after the tries is what any match at the start leaves. -/
theorem mem_rests_iff :
    rest ∈ a.rests text ↔ ∃ taken, a.Matches taken ∧ text = taken ++ rest := by
  induction a generalizing text rest with
  | empty =>
    constructor
    · exact fun h ↦ ⟨[], .empty, (List.mem_singleton.1 h).symm⟩
    · rintro ⟨taken, ⟨⟩, rfl⟩
      exact List.mem_singleton.2 rfl
  | one p =>
    constructor
    · intro h
      rcases text with - | ⟨c, text⟩
      · exact absurd h List.not_mem_nil
      · by_cases hc : p c = true
        · rw [rests_one_of_pos hc, List.mem_singleton] at h
          exact ⟨[c], .one hc, by rw [h]; rfl⟩
        · rw [rests_one_of_neg (Bool.eq_false_iff.2 hc)] at h
          exact absurd h List.not_mem_nil
    · rintro ⟨taken, h, rfl⟩
      cases h with
      | one hc =>
        rw [List.singleton_append, rests_one_of_pos hc]
        exact List.mem_singleton.2 rfl
  | seq a b iha ihb =>
    rw [rests_seq, List.mem_flatMap]
    constructor
    · rintro ⟨mid, hmid, h⟩
      obtain ⟨s, hs, rfl⟩ := iha.1 hmid
      obtain ⟨t, ht, rfl⟩ := ihb.1 h
      exact ⟨s ++ t, .seq hs ht, (List.append_assoc _ _ _).symm⟩
    · rintro ⟨taken, h, rfl⟩
      cases h with
      | seq hs ht => exact ⟨_, iha.2 ⟨_, hs, List.append_assoc _ _ _⟩, ihb.2 ⟨_, ht, rfl⟩⟩
  | alt a b iha ihb =>
    rw [rests_alt, List.mem_append, iha, ihb]
    constructor
    · rintro (⟨s, hs, rfl⟩ | ⟨s, hs, rfl⟩)
      · exact ⟨s, .left hs, rfl⟩
      · exact ⟨s, .right hs, rfl⟩
    · rintro ⟨taken, h, rfl⟩
      cases h with
      | left h => exact .inl ⟨_, h, rfl⟩
      | right h => exact .inr ⟨_, h, rfl⟩
  | star a ih => exact mem_repeated_iff (fun _ _ ↦ ih) (Nat.le_refl _)

/-! ### Repetitions that leave no choice -/

/-- There is no use in more tries than there are characters. -/
theorem repeated_congr {f : List Char → List (List Char)} {n m : Nat} (hn : text.length ≤ n)
    (hm : text.length ≤ m) : repeated f n text = repeated f m text := by
  induction n generalizing text m with
  | zero =>
    obtain rfl := List.length_eq_zero_iff.1 (Nat.le_zero.1 hn)
    cases m <;> simp [repeated]
  | succ n ih =>
    rcases m with - | m
    · obtain rfl := List.length_eq_zero_iff.1 (Nat.le_zero.1 hm)
      simp [repeated]
    · rw [repeated, repeated]
      refine congrArg (· ++ [text]) (List.flatMap_congr fun mid hmid ↦ ?_)
      have hlt : mid.length < text.length := by simpa using (List.mem_filter.1 hmid).2
      exact ih (by omega) (by omega)

/-- Where a pattern matches in one way, it is tried again behind that. -/
theorem rests_star_of_singleton (h : a.rests text = [rest]) (hlt : rest.length < text.length) :
    (star a).rests text = (star a).rests rest ++ [text] := by
  show repeated a.rests text.length text = repeated a.rests rest.length rest ++ [text]
  obtain ⟨n, hn⟩ : ∃ n, text.length = n + 1 := ⟨text.length - 1, by omega⟩
  rw [hn, repeated, h, List.filter_cons_of_pos (by simpa using hlt), List.filter_nil,
    List.flatMap_singleton, repeated_congr (f := a.rests) (show rest.length ≤ n by omega)
      (Nat.le_refl rest.length)]

/-- Where a pattern does not match, it is repeated no time. -/
theorem rests_star_of_nil (h : a.rests text = []) : (star a).rests text = [text] := by
  show repeated a.rests text.length text = [text]
  cases text.length with
  | zero => rfl
  | succ n =>
    rw [repeated, h]
    rfl

/-- What does not match before a match of the pattern is sought behind it. -/
theorem rests_seq_star_of_singleton (h : a.rests text = [rest]) (hlt : rest.length < text.length)
    (hb : b.rests text = []) : (seq (star a) b).rests text = (seq (star a) b).rests rest := by
  rw [rests_seq, rests_star_of_singleton h hlt, List.flatMap_append, List.flatMap_singleton, hb,
    List.append_nil, ← rests_seq]

theorem rests_seq_star_of_nil (h : a.rests text = []) (b : Pattern) :
    (seq (star a) b).rests text = b.rests text := by
  rw [rests_seq, rests_star_of_nil h, List.flatMap_singleton]

theorem rests_star_one_of_pos (h : p c = true) (rest : List Char) :
    (star (one p)).rests (c :: rest) = (star (one p)).rests rest ++ [c :: rest] :=
  rests_star_of_singleton (rests_one_of_pos h rest) (Nat.lt_succ_self _)

theorem rests_star_one_of_neg (h : p c = false) (rest : List Char) :
    (star (one p)).rests (c :: rest) = [c :: rest] :=
  rests_star_of_nil (rests_one_of_neg h rest)

/-! ### The longest match comes first -/

/-- The first of some texts is a given one, and none is shorter. -/
structure Led (r : List Char) (rs : List (List Char)) : Prop where
  /-- It is the first. -/
  head : rs.head? = some r
  /-- None is shorter. -/
  shortest : ∀ s ∈ rs, r.length ≤ s.length

theorem Led.singleton (r : List Char) : Led r [r] :=
  ⟨rfl, List.forall_mem_singleton.2 (Nat.le_refl _)⟩

theorem Led.append {r : List Char} {rs rs' : List (List Char)} (h : Led r rs)
    (h' : ∀ s ∈ rs', r.length ≤ s.length) : Led r (rs ++ rs') :=
  ⟨by rw [List.head?_append, h.head, Option.some_or],
    List.forall_mem_append.2 ⟨h.shortest, h'⟩⟩

/-- Characters of a kind are taken as long as there are any. -/
theorem led_star_one (p : Char → Bool) (text : List Char) :
    Led (text.dropWhile p) ((star (one p)).rests text) := by
  induction text with
  | nil => exact .singleton []
  | cons c rest ih =>
    by_cases hc : p c = true
    · rw [rests_star_one_of_pos hc, List.dropWhile_cons_of_pos hc]
      refine ih.append (List.forall_mem_singleton.2 ?_)
      exact Nat.le_succ_of_le (List.dropWhile_sublist _).length_le
    · rw [rests_star_one_of_neg (Bool.eq_false_iff.2 hc), List.dropWhile_cons_of_neg hc]
      exact .singleton _

/-- A pattern does not match where a character of a kind stands. -/
def Rejects (a : Pattern) (p : Char → Bool) : Prop :=
  ∀ c, p c = true → ∀ rest, a.rests (c :: rest) = []

/-- What does not begin with a character of a kind matches only behind all of them. -/
theorem Rejects.rests_seq_star (h : a.Rejects p) (text : List Char) :
    (seq (star (one p)) a).rests text = a.rests (text.dropWhile p) := by
  induction text with
  | nil => exact rests_seq_star_of_nil rfl a
  | cons c rest ih =>
    by_cases hc : p c = true
    · rw [rests_seq_star_of_singleton (rests_one_of_pos hc rest) (Nat.lt_succ_self _) (h c hc rest),
        ih, List.dropWhile_cons_of_pos hc]
    · rw [rests_seq_star_of_nil (rests_one_of_neg (Bool.eq_false_iff.2 hc) rest),
        List.dropWhile_cons_of_neg hc]

/-- Nor is it found before, if it may be missing. -/
theorem Rejects.rests_seq_star_opt (h : a.Rejects p) (text : List Char) :
    (seq (star (one p)) (opt a)).rests text =
      a.rests (text.dropWhile p) ++ (star (one p)).rests text := by
  have hopt (text : List Char) : (opt a).rests text = a.rests text ++ [text] := rfl
  rw [rests_seq]
  induction text with
  | nil => exact List.flatMap_singleton _ _
  | cons c rest ih =>
    by_cases hc : p c = true
    · rw [rests_star_one_of_pos hc, List.flatMap_append, ih, List.flatMap_singleton, hopt, h c hc,
        List.nil_append, List.append_assoc, List.dropWhile_cons_of_pos hc]
    · rw [rests_star_one_of_neg (Bool.eq_false_iff.2 hc), List.dropWhile_cons_of_neg hc,
        List.flatMap_singleton, hopt]

/-- How many characters a pattern takes at the start of a text, if it matches there: those of the
first match that is found, and no other match takes more. -/
def Finds (a : Pattern) (text : List Char) : Option Nat → Prop
  | none => a.rests text = []
  | some n => n ≤ text.length ∧ Led (text.drop n) (a.rests text)

namespace Finds

variable {n : Nat} {found : Option Nat}

theorem head?_rests (h : a.Finds text found) :
    (a.rests text).head? = found.map fun n ↦ text.drop n := by
  cases found with
  | none => rw [show a.rests text = [] from h]; rfl
  | some n => exact h.2.head

/-- A single match is the one that is found. -/
theorem of_rests_eq (hn : ∀ n, found = some n → n ≤ text.length)
    (h : a.rests text = (found.map fun n ↦ text.drop n).toList) : a.Finds text found := by
  cases found with
  | none => exact h
  | some n => exact ⟨hn n rfl, h ▸ .singleton _⟩

/-- What is found depends on the tries only. -/
theorem congr (h : b.Finds text found) (heq : a.rests text = b.rests text) :
    a.Finds text found := by
  cases found with
  | none => exact heq.trans h
  | some n => exact ⟨h.1, heq ▸ h.2⟩

/-- What is found behind some characters is found with them. -/
theorem of_drop {k : Nat} (hk : k ≤ text.length) (h : b.Finds (text.drop k) found)
    (heq : a.rests text = b.rests (text.drop k)) : a.Finds text (found.map (k + ·)) := by
  cases found with
  | none => exact heq.trans h
  | some n =>
    obtain ⟨hn, hled⟩ := h
    rw [List.length_drop] at hn
    rw [List.drop_drop] at hled
    exact ⟨show k + n ≤ text.length by omega, heq ▸ hled⟩

/-- What is found behind a character is found with it. -/
theorem of_cons (h : b.Finds rest found) (heq : a.rests (c :: rest) = b.rests rest) :
    a.Finds (c :: rest) (found.map (1 + ·)) :=
  of_drop (k := 1) (Nat.succ_le_succ (Nat.zero_le _)) h heq

/-- What is found is matched. -/
theorem matches_take (h : a.Finds text (some n)) : a.Matches (text.take n) := by
  obtain ⟨taken, hmatches, htext⟩ := mem_rests_iff.1 (List.mem_of_head? h.2.head)
  have htake : taken = text.take n :=
    List.append_cancel_right (htext.symm.trans (List.take_append_drop n text).symm)
  rwa [← htake]

/-- No match takes more than what is found. -/
theorem exists_length_le (h : a.Finds text found) (hbegins : taken <+: text)
    (hmatches : a.Matches taken) : ∃ n, found = some n ∧ taken.length ≤ n := by
  obtain ⟨rest, rfl⟩ := hbegins
  have hmem : rest ∈ a.rests (taken ++ rest) := mem_rests_iff.2 ⟨taken, hmatches, rfl⟩
  cases found with
  | none =>
    rw [show a.rests (taken ++ rest) = [] from h] at hmem
    exact absurd hmem List.not_mem_nil
  | some n =>
    have hle := h.2.shortest rest hmem
    have hn := h.1
    rw [List.length_drop] at hle
    rw [List.length_append] at hle hn
    exact ⟨n, rfl, by omega⟩

end Finds

end Pattern

end Sangria
