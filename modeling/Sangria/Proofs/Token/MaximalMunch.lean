import Mathlib.Data.List.Sort
import Sangria.Proofs.Token.Indentation
import Sangria.Proofs.Token.TokenRule

/-!
# Maximal munch

The rules for tokens are tried in a fixed order, and the first that matches is taken, by its first
match (`TokenRule.firstMatch`). That is what munching does (`munch_eq_firstMatch`), and it is always
the longest match of all rules, and the only one of its length (`TokenRule.wins_of_firstMatch`).
So what a scanner takes at any place of a source is the longest that any rule matches there, and
where it finds an illegal character, no rule matches (`Scanner.Reads.takesLongest`).

## What this rests on

* Every rule finds its own longest match (`TokenRule.finds_length?`).
* A rule that matches takes more than any later rule (`TokenRule.pairwise_outdoes`). Rules of
  different families never match at the same place, because the first character tells the family
  (`TokenRule.exists_of_length?`). That leaves real literals, which come before integers, and signs,
  of which those with a longer pattern come first.
-/

namespace Sangria

namespace TokenRule

/-! ### The order of the rules -/

/-- The signs, in the order in which they are defined. -/
def definedSigns : List (List Char × Kind) :=
  [(['+'], .op .add), (['-'], .op .sub), (['*'], .op .mul), (['/'], .op .div),
    (['/', '/'], .op .floorDiv), (['%'], .op .mod), (['*', '*'], .op .pow),
    (['='], .binding .plain), (['+', '='], .binding .add), (['-', '='], .binding .sub),
    (['*', '='], .binding .mul), (['/', '='], .binding .div), (['=', '='], .op .eq),
    (['!', '='], .op .ne), (['<'], .op .lt), (['>'], .op .gt), (['<', '='], .op .le),
    (['>', '='], .op .ge), (['('], .openParen), ([')'], .closeParen), ([','], .comma),
    ([':'], .colon)]

/-- How the pattern of a sign is written: characters with a meaning of their own in patterns stand
behind a backslash. -/
def patternText (s : List Char) : List Char :=
  s.flatMap fun c ↦ if c ∈ ['+', '*', '(', ')'] then ['\\', c] else [c]

/-- A sign comes before another if its pattern is as long or longer. -/
def Precedes (s s' : List Char × Kind) : Prop :=
  (patternText s'.1).length ≤ (patternText s.1).length

instance : DecidableRel Precedes :=
  fun _ _ ↦ Nat.decLe _ _

instance : Std.Total Precedes :=
  ⟨fun _ _ ↦ Nat.le_total _ _⟩

instance : IsTrans (List Char × Kind) Precedes :=
  ⟨fun _ _ _ h h' ↦ Nat.le_trans h' h⟩

/-- The signs, in the order in which they are tried. -/
def signsTried : List (List Char × Kind) :=
  definedSigns.insertionSort Precedes

/-- All rules, in the order in which they are tried. -/
def all : List TokenRule :=
  [comment, real, integer, quoted, word, lineEnd] ++ signsTried.map fun s ↦ sign s.1 s.2

/-- The first rule that matches at the start of a text, and how much its first match takes. -/
def firstMatch (text : List Char) : Option (TokenRule × Nat) :=
  all.findSome? fun r ↦ (r.pattern.rests text).head?.map fun rest ↦ (r, text.length - rest.length)

/-- The kind of the token that a rule makes of the text it takes; a comment is no token. -/
def kind? (text : List Char) : TokenRule → Option Kind
  | comment => none
  | real => some (.literal .float)
  | integer => some (.literal .int)
  | quoted => some (.literal .string)
  | word => some (wordKind text)
  | lineEnd => some .newline
  | sign _ k => some k

/-- A rule wins at the start of a text with a length: it is the first that matches, what it takes is
the longest prefix that any rule matches, and no other rule matches that one. -/
structure Wins (r : TokenRule) (text : List Char) (n : Nat) : Prop where
  /-- It is the first that matches. -/
  first : firstMatch text = some (r, n)
  /-- So much is there. -/
  le : n ≤ text.length
  /-- It matches what it takes. -/
  matching : r.pattern.Matches (text.take n)
  /-- No rule matches anything longer. -/
  longest : ∀ r' ∈ all, ∀ taken, taken <+: text → r'.pattern.Matches taken → taken.length ≤ n
  /-- No other rule matches as much. -/
  only : ∀ r' ∈ all, r'.pattern.Matches (text.take n) → r' = r

/-! ### Families -/

/-- The families of rules: those that can match at the same place. -/
inductive Family
  /-- Comments. -/
  | comment
  /-- Numbers. -/
  | number
  /-- Quoted texts. -/
  | quoted
  /-- Words. -/
  | word
  /-- Ends of lines. -/
  | lineEnd
  /-- Signs. -/
  | sign
  deriving DecidableEq

/-- The family of a rule. -/
def family : TokenRule → Family
  | comment => .comment
  | real | integer => .number
  | quoted => .quoted
  | word => .word
  | lineEnd => .lineEnd
  | sign _ _ => .sign

/-- The family that can match where a character stands. -/
def familyOf (c : Char) : Family :=
  if c = '\n' then .lineEnd
  else if isWordStart c then .word
  else if c = '"' ∨ c = '\'' then .quoted
  else if c = '#' then .comment
  else if isAsciiDigit c ∨ c = '.' then .number
  else .sign

variable {r r' : TokenRule} {c : Char} {text rest taken : List Char} {n m : Nat}

theorem perm_signsTried : signsTried.Perm definedSigns :=
  definedSigns.perm_insertionSort Precedes

theorem sign_mem_all_iff {s : List Char} {k : Kind} :
    sign s k ∈ all ↔ (s, k) ∈ definedSigns := by
  rw [all, List.mem_append, List.mem_map, ← perm_signsTried.mem_iff]
  constructor
  · rintro (h | ⟨s', hs', heq⟩)
    · simp at h
    · obtain ⟨rfl, rfl⟩ := TokenRule.sign.inj heq
      exact hs'
  · exact fun h ↦ .inr ⟨_, h, rfl⟩

theorem familyOf_of_isAsciiDigit (hc : isAsciiDigit c = true) : familyOf c = .number := by
  have hne {d : Char} (hd : isAsciiDigit d = false) : c ≠ d := by
    rintro rfl
    exact absurd (hc.symm.trans hd) (by decide)
  rw [familyOf, if_neg (hne rfl), isWordStart_of_isAsciiDigit hc, if_neg (by decide),
    if_neg (not_or.2 ⟨hne rfl, hne rfl⟩), if_neg (hne rfl), if_pos (.inl hc)]

theorem perm_signs : signs.Perm definedSigns := by
  decide

/-- Signs begin with a character that nothing else begins with. -/
theorem exists_of_mem_definedSigns {s : List Char × Kind} (h : s ∈ definedSigns) :
    ∃ c s', s.1 = c :: s' ∧ familyOf c = .sign := by
  have hfirst : ∀ s ∈ definedSigns, s.1.head?.any fun c ↦ familyOf c = .sign := by decide
  obtain ⟨c, hc, hfamily⟩ := (Option.any_eq_true _ _).1 (hfirst s h)
  obtain ⟨s', hs'⟩ := List.head?_eq_some_iff.1 hc
  exact ⟨c, s', hs', of_decide_eq_true hfamily⟩

theorem munchSign_eq_none (h : familyOf c ≠ .sign) (rest : List Char) :
    munchSign (c :: rest) = none := by
  rw [munchSign, Option.map_eq_none_iff, List.find?_eq_none]
  intro s hs hbegins
  obtain ⟨d, s', hs', hd⟩ := exists_of_mem_definedSigns (perm_signs.mem_iff.1 hs)
  rw [List.isPrefixOf_iff_prefix, hs'] at hbegins
  obtain ⟨rfl, -⟩ := List.cons_prefix_cons.1 hbegins
  exact h hd

/-- What is left for the signs is nothing that any other rule begins with. -/
theorem familyOf_eq_sign (h : familyOf c = .sign) : isAsciiDigit c = false ∧ c ≠ '.' := by
  constructor
  · refine Bool.eq_false_iff.2 fun hc ↦ ?_
    exact absurd (h.symm.trans (familyOf_of_isAsciiDigit hc)) (by decide)
  · rintro rfl
    exact absurd h (by decide)

/-- Where a rule matches, the first character tells its family. -/
theorem exists_of_length? (hr : r ∈ all) (h : r.length? text = some n) :
    ∃ c rest, text = c :: rest ∧ r.family = familyOf c := by
  rcases text with - | ⟨c, rest⟩
  · cases r with
    | sign s k =>
      obtain ⟨c, s', rfl, -⟩ := exists_of_mem_definedSigns (sign_mem_all_iff.1 hr)
      exact absurd h (by simp [length?])
    | _ => exact absurd h (by simp [length?, commentLength, munchNumber, digitCount, counted])
  refine ⟨c, rest, rfl, ?_⟩
  have hnumber : isAsciiDigit c = true ∨ c = '.' → .number = familyOf c := by
    rintro (hc | rfl)
    · exact (familyOf_of_isAsciiDigit hc).symm
    · decide
  cases r with
  | comment =>
    obtain rfl : c = '#' := by
      by_contra hc
      exact absurd h (by simp [length?, commentLength, counted, hc])
    decide
  | real =>
    refine hnumber (by_contra fun hc ↦ ?_)
    obtain ⟨hdigit, hpoint⟩ := not_or.1 hc
    rw [length?, munchNumber_eq_none (Bool.eq_false_iff.2 hdigit) hpoint] at h
    exact absurd h (by simp)
  | integer =>
    refine hnumber (.inl (by_contra fun hc ↦ ?_))
    rw [length?, digitCount_cons_of_neg (Bool.eq_false_iff.2 hc)] at h
    exact absurd h (by simp [counted])
  | quoted =>
    have hc : c = '"' ∨ c = '\'' := by
      by_contra hc
      exact absurd h (by simp [length?, hc])
    rcases hc with rfl | rfl <;> decide
  | word =>
    have hc : isWordStart c = true := by
      by_contra hc
      exact absurd h (by simp [length?, hc])
    have hline : c ≠ '\n' := by
      rintro rfl
      exact absurd hc (by decide)
    rw [familyOf, if_neg hline, if_pos hc, family]
  | lineEnd =>
    obtain rfl : c = '\n' := by
      by_contra hc
      exact absurd h (by simp [length?, counted, hc])
    decide
  | sign s k =>
    obtain ⟨d, s', rfl, hd⟩ := exists_of_mem_definedSigns (sign_mem_all_iff.1 hr)
    have hbegins : d :: s' <+: c :: rest := by
      by_contra hbegins
      rw [length?, if_neg hbegins] at h
      exact absurd h (by simp)
    obtain ⟨rfl, -⟩ := List.cons_prefix_cons.1 hbegins
    exact hd.symm

/-! ### Earlier rules take more -/

/-- A rule outdoes another if it takes more wherever both match. -/
def Outdoes (r r' : TokenRule) : Prop :=
  ∀ text n m, r.length? text = some n → r'.length? text = some m → m < n

/-- Rules of different families never match at the same place. -/
theorem outdoes_of_family_ne (hr : r ∈ all) (hr' : r' ∈ all) (h : r.family ≠ r'.family) :
    r.Outdoes r' := by
  intro text n m hn hm
  obtain ⟨c, rest, rfl, hc⟩ := exists_of_length? hr hn
  obtain ⟨c', rest', heq, hc'⟩ := exists_of_length? hr' hm
  obtain ⟨rfl, rfl⟩ := List.cons.inj heq
  exact absurd (hc.trans hc'.symm) h

/-- Numbers are real literals where those match, and else integers. -/
theorem munchNumber_eq_or (text : List Char) :
    munchNumber text = ((real.length? text).map fun n ↦ (.literal .float, n)).or
      ((integer.length? text).map fun n ↦ (.literal .int, n)) := by
  rw [length?, length?]
  by_cases hpoint : '.' ∈ (text.drop (digitCount text)).head?
  · obtain ⟨rest, hrest⟩ := List.head?_eq_some_iff.1 hpoint
    rw [munchNumber_of_point hrest]
    split
    · rename_i hnone
      rw [hnone.1]
      rfl
    · rfl
  · rw [munchNumber_of_no_point hpoint]
    split
    · rename_i hnone
      rw [hnone]
      rfl
    · rename_i hwhole
      split
      · rw [counted_of_pos (Nat.pos_of_ne_zero hwhole)]
        rfl
      · rfl

/-- A real literal takes more than its digits. -/
theorem real_outdoes_integer : real.Outdoes integer := by
  intro text n m hn hm
  obtain ⟨rfl, -⟩ := counted_eq_some_iff.1 hm
  rw [length?] at hn
  by_cases hpoint : '.' ∈ (text.drop (digitCount text)).head?
  · obtain ⟨rest, hrest⟩ := List.head?_eq_some_iff.1 hpoint
    rw [munchNumber_of_point hrest] at hn
    split at hn
    · exact absurd hn (by simp)
    · obtain rfl := Option.some.inj hn
      omega
  · rw [munchNumber_of_no_point hpoint] at hn
    split at hn
    · exact absurd hn (by simp)
    · split at hn
      · exact absurd hn (by simp)
      · obtain rfl := Option.some.inj hn
        omega

/-- Of two texts at the same place, the one that the other does not begin with is shorter. -/
theorem length_lt_of_not_prefix {s s' : List Char} (h : ¬s <+: s') (hs : s <+: text)
    (hs' : s' <+: text) : s'.length < s.length := by
  rcases List.prefix_or_prefix_of_prefix hs hs' with hbegins | hbegins
  · exact absurd hbegins h
  · refine Nat.lt_of_le_of_ne hbegins.length_le fun hlength ↦ ?_
    obtain rfl := hbegins.eq_of_length hlength
    exact h List.prefix_rfl

/-- A sign takes more than one that does not begin with it. -/
theorem sign_outdoes_sign {s s' : List Char} (h : ¬s <+: s') (k k' : Kind) :
    (sign s k).Outdoes (sign s' k') := by
  intro text n m hn hm
  rw [length?] at hn hm
  split at hn
  · split at hm
    · rename_i hs hs'
      obtain rfl := Option.some.inj hn
      obtain rfl := Option.some.inj hm
      exact length_lt_of_not_prefix h hs hs'
    · exact absurd hm (by simp)
  · exact absurd hn (by simp)

/-- The pattern of a sign that begins another one is shorter. -/
theorem length_patternText_lt {s s' : List Char} (h : s <+: s') (hne : s ≠ s') :
    (patternText s).length < (patternText s').length := by
  obtain ⟨t, rfl⟩ := h
  rcases t with - | ⟨c, t⟩
  · exact absurd (List.append_nil s).symm hne
  · have hnil : patternText (c :: t) ≠ [] := by
      rw [patternText, List.flatMap_cons]
      split <;> exact List.cons_ne_nil _ _
    have happend : patternText (s ++ c :: t) = patternText s ++ patternText (c :: t) :=
      List.flatMap_append
    rw [happend, List.length_append]
    exact Nat.lt_add_of_pos_right (List.length_pos_iff.2 hnil)

/-- No sign begins one that is tried later. -/
theorem pairwise_signsTried : signsTried.Pairwise fun s s' ↦ ¬s.1 <+: s'.1 := by
  have hsorted : signsTried.Pairwise Precedes := definedSigns.pairwise_insertionSort Precedes
  have hdistinct : definedSigns.Pairwise fun s s' ↦ s.1 ≠ s'.1 := by decide
  have hdistinct : signsTried.Pairwise fun s s' ↦ s.1 ≠ s'.1 :=
    hdistinct.perm perm_signsTried.symm Ne.symm
  exact (hsorted.and hdistinct).imp fun ⟨hle, hne⟩ hbegins ↦
    Nat.not_lt_of_le hle (length_patternText_lt hbegins hne)

/-- Every rule outdoes those that are tried later. -/
theorem pairwise_outdoes : all.Pairwise Outdoes := by
  have hfixed : [comment, real, integer, quoted, word, lineEnd].Pairwise fun r r' ↦
      r.family ≠ r'.family ∨ r = real ∧ r' = integer := by decide
  refine List.pairwise_append.2 ⟨hfixed.imp_of_mem fun hr hr' h ↦ ?_, ?_, fun r hr r' hr' ↦ ?_⟩
  · rcases h with h | ⟨rfl, rfl⟩
    · exact outdoes_of_family_ne (List.mem_append_left _ hr) (List.mem_append_left _ hr') h
    · exact real_outdoes_integer
  · exact List.pairwise_map.2 (pairwise_signsTried.imp fun h ↦ sign_outdoes_sign h _ _)
  · have hfamily : ∀ r ∈ [comment, real, integer, quoted, word, lineEnd], r.family ≠ .sign := by
      decide
    refine outdoes_of_family_ne (List.mem_append_left _ hr) (List.mem_append_right _ hr') ?_
    obtain ⟨s, -, rfl⟩ := List.mem_map.1 hr'
    exact hfamily r hr

/-! ### The first match is the longest -/

/-- The first match is of the first rule that takes anything, with as much as it takes. -/
theorem firstMatch_eq (text : List Char) :
    firstMatch text = all.findSome? fun r ↦ (r.length? text).map fun n ↦ (r, n) := by
  refine congrArg (all.findSome? ·) (funext fun r ↦ ?_)
  have hfinds := r.finds_length? text
  rw [hfinds.head?_rests]
  cases h : r.length? text with
  | none => rfl
  | some n =>
    rw [h] at hfinds
    have hle : n ≤ text.length := hfinds.1
    rw [Option.map_some, Option.map_some, Option.map_some, List.length_drop, Nat.sub_sub_self hle]

/-- The first rule that matches wins. -/
theorem wins_of_firstMatch (h : firstMatch text = some (r, n)) : Wins r text n := by
  have hfirst := h
  rw [firstMatch_eq] at hfirst
  obtain ⟨before, r₀, after, hall, hr, hbefore⟩ := List.findSome?_eq_some_iff.1 hfirst
  obtain ⟨n₀, hn, heq⟩ := Option.map_eq_some_iff.1 hr
  obtain ⟨rfl, rfl⟩ := Prod.mk.inj heq
  have hfinds : r₀.pattern.Finds text (some n₀) := hn ▸ r₀.finds_length? text
  -- rules before it do not match, and it outdoes the others
  have hlt : ∀ r' ∈ all, r' ≠ r₀ → ∀ m, r'.length? text = some m → m < n₀ := by
    intro r' hr' hne m hm
    rw [hall, List.mem_append, List.mem_cons] at hr'
    have hpairwise := pairwise_outdoes
    rw [hall, List.pairwise_append, List.pairwise_cons] at hpairwise
    rcases hr' with hmem | heq | hmem
    · have hnone := hbefore r' hmem
      rw [hm] at hnone
      exact absurd hnone (by simp)
    · exact absurd heq hne
    · exact hpairwise.2.1.1 r' hmem text n₀ m hn hm
  refine ⟨h, hfinds.1, hfinds.matches_take, fun r' hr' taken hbegins hmatch ↦ ?_,
    fun r' hr' hmatch ↦ by_contra fun hne ↦ ?_⟩
  · obtain ⟨m, hm, hle⟩ := (r'.finds_length? text).exists_length_le hbegins hmatch
    by_cases hne : r' = r₀
    · subst hne
      rw [hn] at hm
      rwa [Option.some.inj hm]
    · exact Nat.le_trans hle (Nat.le_of_lt (hlt r' hr' hne m hm))
  · have hbegins : text.take n₀ <+: text := List.take_prefix n₀ text
    obtain ⟨m, hm, hle⟩ := (r'.finds_length? text).exists_length_le hbegins hmatch
    have hm := hlt r' hr' hne m hm
    rw [List.length_take_of_le hfinds.1] at hle
    omega

/-- If there is no first match, no rule matches anything. -/
theorem not_matches_of_firstMatch (h : firstMatch text = none) (hr : r ∈ all)
    (hbegins : taken <+: text) : ¬r.pattern.Matches taken := by
  intro hmatch
  obtain ⟨n, hn, -⟩ := (r.finds_length? text).exists_length_le hbegins hmatch
  rw [firstMatch_eq, List.findSome?_eq_none_iff] at h
  have hnone := h r hr
  rw [hn] at hnone
  exact absurd hnone (by simp)

/-! ### Munching takes the first match -/

/-- A list without the elements that a search does not answer for. -/
theorem findSome?_filter_of {α β : Type} {f : α → Option β} {p : α → Bool} {l : List α}
    (h : ∀ a ∈ l, p a = false → f a = none) : (l.filter p).findSome? f = l.findSome? f := by
  induction l with
  | nil => rfl
  | cons a l ih =>
    obtain ⟨ha, hl⟩ := List.forall_mem_cons.1 h
    rw [List.findSome?_cons]
    by_cases hp : p a = true
    · rw [List.filter_cons_of_pos hp, List.findSome?_cons, ih hl]
    · rw [List.filter_cons_of_neg hp, ih hl, ha (Bool.eq_false_iff.2 hp)]

/-- The rules of a family, in the order in which they are tried. -/
def Family.rules : Family → List TokenRule
  | .comment => [.comment]
  | .number => [real, integer]
  | .quoted => [.quoted]
  | .word => [.word]
  | .lineEnd => [.lineEnd]
  | .sign => signsTried.map fun s ↦ .sign s.1 s.2

theorem filter_family (f : Family) : all.filter (·.family = f) = f.rules := by
  have hsigns : ∀ r ∈ signsTried.map fun s ↦ sign s.1 s.2, r.family = .sign :=
    List.forall_mem_map.2 fun _ _ ↦ rfl
  have hnone (hf : f ≠ .sign) :
      (signsTried.map fun s ↦ sign s.1 s.2).filter (·.family = f) = [] :=
    List.filter_eq_nil_iff.2 fun r hr ↦ by simpa [hsigns r hr] using hf.symm
  rw [all, List.filter_append]
  cases f with
  | sign =>
    rw [List.filter_eq_self.2 fun r hr ↦ decide_eq_true (hsigns r hr)]
    rfl
  | _ =>
    rw [hnone (by decide), List.append_nil]
    rfl

/-- Only the rules of the family of the first character have to be tried. -/
theorem firstMatch_cons (c : Char) (rest : List Char) :
    firstMatch (c :: rest) = (familyOf c).rules.findSome? fun r ↦
      (r.length? (c :: rest)).map fun n ↦ (r, n) := by
  rw [firstMatch_eq, ← filter_family]
  refine (findSome?_filter_of fun r hr hfamily ↦ ?_).symm
  rw [Option.map_eq_none_iff, Option.eq_none_iff_forall_ne_some]
  intro n hn
  obtain ⟨_, _, heq, hc⟩ := exists_of_length? hr hn
  obtain ⟨rfl, rfl⟩ := List.cons.inj heq
  exact of_decide_eq_false hfamily hc

/-- The sign that is found is the longest one that is there, if no sign begins a later one. -/
theorem find?_prefix_eq_some_iff {l : List (List Char × Kind)}
    (hl : l.Pairwise fun s s' ↦ ¬s.1 <+: s'.1) {s : List Char × Kind} :
    l.find? (·.1.isPrefixOf text) = some s ↔ s ∈ l ∧ s.1 <+: text ∧
      ∀ s' ∈ l, s'.1 <+: text → s' ≠ s → s'.1.length < s.1.length := by
  have hfound {s : List Char × Kind} (h : l.find? (·.1.isPrefixOf text) = some s) :
      s.1 <+: text :=
    List.isPrefixOf_iff_prefix.1 (List.find?_eq_some_iff_append.1 h).1
  have hlongest {s : List Char × Kind} (h : l.find? (·.1.isPrefixOf text) = some s) :
      ∀ s' ∈ l, s'.1 <+: text → s' ≠ s → s'.1.length < s.1.length := by
    intro s' hmem hbegins hne
    have hs := hfound h
    obtain ⟨-, before, after, rfl, hbefore⟩ := List.find?_eq_some_iff_append.1 h
    rw [List.pairwise_append, List.pairwise_cons] at hl
    rcases List.mem_append.1 hmem with hmem | hmem
    · have hnot := hbefore s' hmem
      rw [List.isPrefixOf_iff_prefix.2 hbegins] at hnot
      exact absurd hnot (by decide)
    · rcases List.mem_cons.1 hmem with heq | hmem
      · exact absurd heq hne
      · exact length_lt_of_not_prefix (hl.2.1.1 s' hmem) hs hbegins
  constructor
  · intro h
    exact ⟨List.mem_of_find?_eq_some h, hfound h, hlongest h⟩
  · rintro ⟨hmem, hbegins, hmax⟩
    rcases h : l.find? (·.1.isPrefixOf text) with - | s₀
    · exact absurd (List.isPrefixOf_iff_prefix.2 hbegins) (List.find?_eq_none.1 h s hmem)
    · refine h.trans (congrArg some (by_contra fun hne ↦ ?_))
      have hlt := hlongest h s hmem hbegins (Ne.symm hne)
      have hgt := hmax s₀ (List.mem_of_find?_eq_some h) (hfound h) hne
      omega

/-- Both orders of the signs lead to the same one. -/
theorem find?_signs (text : List Char) :
    signs.find? (·.1.isPrefixOf text) = signsTried.find? (·.1.isPrefixOf text) := by
  have hmem (s : List Char × Kind) : s ∈ signs ↔ s ∈ signsTried :=
    (perm_signs.trans perm_signsTried.symm).mem_iff
  refine Option.ext fun s ↦ ?_
  rw [find?_prefix_eq_some_iff (by decide), find?_prefix_eq_some_iff pairwise_signsTried]
  simp only [hmem]

theorem findSome?_signsTried (text : List Char) :
    ((signsTried.map fun s ↦ sign s.1 s.2).findSome? fun r ↦
      (r.length? text).map fun n ↦ (r, n)) =
      (signsTried.find? (·.1.isPrefixOf text)).map fun s ↦ (sign s.1 s.2, s.1.length) := by
  rw [List.findSome?_map, ← List.findSome?_guard, List.map_findSome?]
  refine congrArg (signsTried.findSome? ·) (funext fun s ↦ ?_)
  by_cases hs : s.1 <+: text
  · simp [length?, hs, Option.guard, List.isPrefixOf_iff_prefix.2 hs]
  · simp [length?, hs, Option.guard, List.isPrefixOf_iff_prefix]

end TokenRule

open TokenRule

/-- Munching takes what the first rule that matches takes. -/
theorem munch_eq_firstMatch (text : List Char) :
    munch text = (firstMatch text).bind fun m ↦
      (m.1.kind? (text.take m.2)).map fun k ↦ (k, m.2) := by
  rcases text with - | ⟨c, rest⟩
  · decide +kernel
  -- munching tells the families apart by the first character, too
  rw [firstMatch_cons, familyOf, munch]
  by_cases hline : c = '\n'
  · have hpos : 0 < ((c :: rest).takeWhile (· = '\n')).length := by
      rw [List.takeWhile_cons_of_pos (by simpa using hline)]
      exact Nat.succ_pos _
    rw [if_pos hline, if_pos hline, Family.rules, List.findSome?_singleton, length?,
      counted_of_pos hpos]
    rfl
  rw [if_neg hline, if_neg hline]
  by_cases hstart : isWordStart c = true
  · rw [if_pos hstart, if_pos hstart, Family.rules, List.findSome?_singleton, length?,
      if_pos hstart]
    show _ = some (wordKind ((c :: rest).take ((c :: rest).takeWhile isWordChar).length), _)
    rw [← List.prefix_iff_eq_take.1 (List.takeWhile_prefix isWordChar)]
  rw [if_neg hstart, if_neg hstart]
  by_cases hquote : c = '"' ∨ c = '\''
  · rw [if_pos hquote, if_pos hquote, Family.rules, List.findSome?_singleton, length?,
      if_pos hquote]
    cases closingQuote c rest with
    | none => rfl
    | some n => rw [Option.map_some, Nat.add_comm]; rfl
  rw [if_neg hquote, if_neg hquote]
  by_cases hcomment : c = '#'
  · subst hcomment
    rw [munchNumber_eq_none (by decide) (by decide), munchSign_eq_none (by decide), if_pos rfl,
      Family.rules, List.findSome?_singleton]
    cases comment.length? ('#' :: rest) <;> rfl
  rw [if_neg hcomment]
  by_cases hnumber : isAsciiDigit c = true ∨ c = '.'
  · have hsign : familyOf c ≠ .sign := fun h ↦ by
      obtain ⟨hdigit, hpoint⟩ := familyOf_eq_sign h
      exact hnumber.elim (fun hc ↦ absurd (hdigit.symm.trans hc) (by decide)) hpoint
    rw [munchSign_eq_none hsign, Option.or_none, munchNumber_eq_or, if_pos hnumber, Family.rules,
      List.findSome?_cons, List.findSome?_singleton]
    cases real.length? (c :: rest) with
    | some n => rfl
    | none => cases integer.length? (c :: rest) <;> rfl
  · obtain ⟨hdigit, hpoint⟩ := not_or.1 hnumber
    rw [munchNumber_eq_none (Bool.eq_false_iff.2 hdigit) hpoint, Option.none_or, munchSign,
      find?_signs, if_neg hnumber, Family.rules, findSome?_signsTried]
    cases signsTried.find? (·.1.isPrefixOf (c :: rest)) <;> rfl

/-- Where no token begins and no comment, no rule matches. -/
theorem firstMatch_eq_none {c : Char} {rest : List Char} (h : munch (c :: rest) = none)
    (hc : c ≠ '#') : firstMatch (c :: rest) = none := by
  rcases hfirst : firstMatch (c :: rest) with - | ⟨r, n⟩
  · rfl
  rw [munch_eq_firstMatch, hfirst] at h
  cases r with
  | comment =>
    rw [firstMatch_eq] at hfirst
    obtain ⟨r, -, hr⟩ := List.exists_of_findSome?_eq_some hfirst
    obtain ⟨n', hn, heq⟩ := Option.map_eq_some_iff.1 hr
    obtain rfl := (Prod.mk.inj heq).1
    exact absurd hn (by simp [length?, commentLength, counted, hc])
  | _ => exact absurd h (by simp [kind?])

/-! ### What a scanner takes -/

/-- A word has a reserved kind exactly if it is a reserved word, and then it has that kind. -/
theorem wordKind_iff (word : List Char) :
    (wordKind word ≠ .name ↔ ∃ k, (String.ofList word, k) ∈ reservedWords) ∧
      ∀ k, (String.ofList word, k) ∈ reservedWords → wordKind word = k := by
  have hlookup : ∀ w ∈ reservedWords, reservedWords.lookup w.1 = some w.2 := by decide
  have hname : ∀ w ∈ reservedWords, w.2 ≠ .name := by decide
  have hkind (k : Kind) (hk : (String.ofList word, k) ∈ reservedWords) : wordKind word = k := by
    rw [wordKind, hlookup _ hk]
    rfl
  refine ⟨⟨fun hne ↦ ⟨_, (wordKind_cases word).resolve_left hne⟩, ?_⟩, hkind⟩
  rintro ⟨k, hk⟩
  rw [hkind k hk]
  exact hname _ hk

/-- What a scanner of a source takes where it stands, and what it does not: blanks with a comment
behind them if there is one, and then a token, each as long as any rule allows, or a character with
which no rule begins. -/
structure TakesLongest (source : List Char) (s : Scanner) : Prop where
  /-- Of what is passed over, all is blank but the comment, which wins where it stands. -/
  gap : ∃ blanks behind, source.drop s.offset = blanks ++ behind ∧
    (∀ c ∈ blanks, isBlank c = true) ∧
    ((gap s.rest = blanks.length ∧ ∀ c ∈ behind.head?, isBlank c = false ∧ c ≠ '#') ∨
      ∃ n, gap s.rest = blanks.length + n ∧ Wins .comment behind n)
  /-- A token is the text with which a rule wins behind the gap. Its kind is that of the rule, and a
  word is reserved exactly if all of it is a reserved word. -/
  lexeme : ∀ t next, s.scan = .lexeme t next → t.offset = s.offset + Sangria.gap s.rest ∧ ∃ r,
    Wins r (source.drop t.offset) t.text.toList.length ∧
    t.text.toList <+: source.drop t.offset ∧ next.offset = t.offset + t.text.toList.length ∧
    r.kind? t.text.toList = some t.kind ∧
    (r = .word → (t.kind ≠ .name ↔ ∃ k, (t.text, k) ∈ reservedWords) ∧
      ∀ k, (t.text, k) ∈ reservedWords → t.kind = k)
  /-- A character that is reported stands where no rule matches, and the report is of a text without
  an end exactly if it is a quote. -/
  illegal : ∀ c next, s.scan = .illegal c next →
    (∃ rest, source.drop next.offset = c :: rest) ∧ isBlank c = false ∧
    (∀ r ∈ TokenRule.all, ∀ taken, taken <+: source.drop next.offset → ¬r.pattern.Matches taken) ∧
    ∃ f : LexicalFault, (∀ l, deliveries source s l = [.error (f.diagnostic source next.offset)]) ∧
      (f = .unclosedString ↔ c = '"' ∨ c = '\'') ∧ (f ≠ .unclosedString → f = .illegal c)

/-- A scanner of a source stands in it. -/
theorem Scanner.Reads.rest_eq {source : List Char} {ts : List Lexeme} {s s' : Scanner}
    (h : s.Reads ts s') (hs : s.rest = source.drop s.offset) :
    s'.rest = source.drop s'.offset := by
  induction h with
  | nil => exact hs
  | cons hscan _ ih => exact ih (rest_of_scan hscan hs)

/-- A gap is blanks, and a comment that wins if one begins behind them. -/
theorem exists_of_gap (text : List Char) :
    ∃ blanks behind, text = blanks ++ behind ∧ (∀ c ∈ blanks, isBlank c = true) ∧
      ((gap text = blanks.length ∧ ∀ c ∈ behind.head?, isBlank c = false ∧ c ≠ '#') ∨
        ∃ n, gap text = blanks.length + n ∧ Wins .comment behind n) := by
  refine ⟨text.takeWhile isBlank, text.dropWhile isBlank, List.takeWhile_append_dropWhile.symm,
    fun c hc ↦ List.mem_takeWhile_imp hc, ?_⟩
  have hstop := List.head?_dropWhile_not isBlank text
  rw [gap, drop_length_takeWhile]
  generalize text.dropWhile isBlank = behind at hstop ⊢
  rcases behind with - | ⟨c, rest⟩
  · exact .inl ⟨rfl, fun c hc ↦ absurd hc (by simp)⟩
  · by_cases hc : c = '#'
    · subst hc
      have hfound : comment.length? ('#' :: rest) = some (commentLength ('#' :: rest)) :=
        counted_of_pos (Nat.add_pos_left Nat.one_pos _)
      refine .inr ⟨_, rfl, wins_of_firstMatch ?_⟩
      rw [firstMatch_cons, show familyOf '#' = .comment by decide, Family.rules,
        List.findSome?_singleton, hfound]
      rfl
    · refine .inl ⟨?_, fun d hd ↦ ?_⟩
      · rw [commentLength_eq_zero hc, Nat.add_zero]
      · obtain rfl := Option.some.inj hd
        exact ⟨by simpa using hstop, hc⟩

/-- Whatever a scanner of a source has read, what it takes next is the longest that matches. -/
theorem Scanner.Reads.takesLongest {source : List Char} {ts : List Lexeme} {s : Scanner}
    (h : (Scanner.ofText source).Reads ts s) : TakesLongest source s := by
  have hrest : s.rest = source.drop s.offset := h.rest_eq rfl
  have hdrop : s.rest.drop (gap s.rest) = source.drop (s.offset + gap s.rest) := by
    rw [← List.drop_drop, ← hrest]
  refine ⟨hrest ▸ exists_of_gap s.rest, fun t next hscan ↦ ?_, fun c next hscan ↦ ?_⟩
  · obtain ⟨c, rest, k, n, hfront, hmunch, rfl, rfl⟩ := exists_of_scan hscan
    rw [hfront] at hdrop
    have hle := (munch_length hmunch).2.1
    rw [munch_eq_firstMatch] at hmunch
    obtain ⟨⟨r, n'⟩, hfirst, hkind⟩ := Option.bind_eq_some_iff.1 hmunch
    obtain ⟨k', hk, heq⟩ := Option.map_eq_some_iff.1 hkind
    obtain ⟨rfl, rfl⟩ := Prod.mk.inj heq
    dsimp only at hk ⊢
    rw [← hdrop, String.toList_ofList, List.length_take_of_le hle]
    refine ⟨rfl, r, wins_of_firstMatch hfirst, List.take_prefix _ _, rfl, hk, ?_⟩
    rintro rfl
    obtain rfl := Option.some.inj hk
    exact wordKind_iff _
  · obtain ⟨rest, hfront, rfl⟩ := exists_of_illegal hscan
    have hmunch := munch_of_illegal hscan
    obtain ⟨hblank, hcomment⟩ := not_gap_of_drop_gap hfront
    rw [hfront] at hdrop hmunch
    have hnone := firstMatch_eq_none hmunch hcomment
    refine ⟨⟨rest, hdrop.symm⟩, hblank, fun r hr taken hbegins ↦ ?_, .ofChar c,
      fun l ↦ deliveries_of_illegal hscan, ?_⟩
    · exact not_matches_of_firstMatch hnone hr (hdrop ▸ hbegins)
    · rw [LexicalFault.ofChar]
      split
      · rename_i hquote
        exact ⟨iff_of_true rfl hquote, fun hne ↦ absurd rfl hne⟩
      · rename_i hquote
        exact ⟨iff_of_false (by simp) hquote, fun _ ↦ rfl⟩

/-- Where `2.e` stands, the longest that matches is `2.`: the letter begins no exponent. -/
theorem takesLongest_point_without_exponent :
    (Scanner.ofText "x=2.e".toList).Reads [⟨.name, "x", 1, 0⟩, ⟨.binding .plain, "=", 1, 1⟩]
        ⟨"2.e".toList, 2, 1⟩ ∧
      TakesLongest "x=2.e".toList ⟨"2.e".toList, 2, 1⟩ ∧
      (Scanner.mk "2.e".toList 2 1).scan =
        .lexeme ⟨.literal .float, "2.", 1, 2⟩ ⟨"e".toList, 4, 1⟩ := by
  have hname : (Scanner.ofText "x=2.e".toList).scan =
      .lexeme ⟨.name, "x", 1, 0⟩ ⟨"=2.e".toList, 1, 1⟩ := by decide
  have hsign : (Scanner.mk "=2.e".toList 1 1).scan =
      .lexeme ⟨.binding .plain, "=", 1, 1⟩ ⟨"2.e".toList, 2, 1⟩ := by decide
  have hreads : (Scanner.ofText "x=2.e".toList).Reads
      [⟨.name, "x", 1, 0⟩, ⟨.binding .plain, "=", 1, 1⟩] ⟨"2.e".toList, 2, 1⟩ :=
    .cons hname (.cons hsign (.nil _))
  exact ⟨hreads, Scanner.Reads.takesLongest hreads, by decide⟩

end Sangria
