import Mathlib.Data.Bool.AllAny
import Mathlib.Data.List.Find
import Sangria.Proofs.Token.QuotedText
import Sangria.Token.Scanner

/-!
# Words to be read again

A word is a token that is written, without a place. `Word.Legible` says which words can be written;
`Word.Legible.munch_append` that such a word is read again as itself, if what stands behind it is
one of the characters that end it (`Kind.endsBefore`). Names and literals are legible by families,
reserved words and signs because they stand in the tables of the language.
-/

namespace Sangria

/-- A token as it is written. -/
structure Word where
  /-- The kind. -/
  kind : Kind
  /-- The text. -/
  text : List Char
  deriving DecidableEq, Repr

/-- A lexeme is a word at some place. -/
def Lexeme.Writes (t : Lexeme) (w : Word) : Prop :=
  t.kind = w.kind ∧ t.text = String.ofList w.text

/-- Whether a text is a name: it begins like one, goes on like one, and is not reserved. -/
def isName (x : String) : Bool :=
  (x.toList.head?.any isWordStart && x.toList.all isWordChar) &&
    (reservedWords.lookup x).isNone

/-- The characters that end every word. -/
def wordEnds : List Char :=
  [' ', '\n', ')', ',', ':']

/-- Whether a word of a kind ends before a character. -/
def Kind.endsBefore : Kind → Char → Bool
  | .openParen, _ => true
  | .name, c => c ∈ '(' :: wordEnds
  | _, c => c ∈ wordEnds

/-- The words that can be written. -/
inductive Word.Legible : Word → Prop
  /-- A name. -/
  | name {x : String} (h : isName x = true) : Legible ⟨.name, x.toList⟩
  /-- The digits of an integer. -/
  | int (n : Nat) : Legible ⟨.literal .int, Nat.toDigits 10 n⟩
  /-- A text in quotes. -/
  | string (s : List Char) : Legible ⟨.literal .string, '"' :: (escape '"' s ++ ['"'])⟩
  /-- A reserved word. -/
  | reserved {x : String} {k : Kind} (h : (x, k) ∈ reservedWords) : Legible ⟨k, x.toList⟩
  /-- A sign. -/
  | sign {k : Kind} {s : List Char} (h : (s, k) ∈ signs) : Legible ⟨k, s⟩

/-! ### Names and reserved words -/

/-- Every word but an opening parenthesis ends before the ends of words and the parenthesis only. -/
theorem mem_of_endsBefore {k : Kind} (hk : k ≠ .openParen) {c : Char}
    (h : k.endsBefore c = true) : c ∈ '(' :: wordEnds := by
  unfold Kind.endsBefore at h
  split at h
  · exact absurd rfl hk
  · exact of_decide_eq_true h
  · exact List.mem_cons_of_mem _ (of_decide_eq_true h)

theorem endsBefore_of_mem_wordEnds (k : Kind) {c : Char} (h : c ∈ wordEnds) :
    k.endsBefore c = true := by
  unfold Kind.endsBefore
  split
  · rfl
  · exact decide_eq_true (List.mem_cons_of_mem _ h)
  · exact decide_eq_true h

/-- Only a name ends before an opening parenthesis. -/
theorem eq_name_of_endsBefore {k : Kind} (hk : k ≠ .openParen) (h : k.endsBefore '(' = true) :
    k = .name := by
  unfold Kind.endsBefore at h
  split at h
  · exact absurd rfl hk
  · rfl
  · exact absurd h (by decide)

theorem isWordChar_of_mem_wordEnds : ∀ c ∈ '(' :: wordEnds, isWordChar c = false := by
  -- `List.all` keeps `decide` from trying all characters that there are
  exact List.all_iff_forall_prop.1 (by decide)

/-- A word is taken up to where it ends. -/
theorem munch_word {text rest : List Char} (hstart : text.head?.any isWordStart = true)
    (hall : text.all isWordChar = true) (hrest : ∀ c ∈ rest.head?, isWordChar c = false) :
    munch (text ++ rest) = some (wordKind text, text.length) := by
  have htake : (text ++ rest).takeWhile isWordChar = text := by
    rw [List.takeWhile_append_of_pos (List.all_eq_true.1 hall)]
    cases rest with
    | nil => simp
    | cons c rest => rw [List.takeWhile_cons_of_neg (by simp [hrest c rfl]), List.append_nil]
  cases text with
  | nil => exact absurd hstart (by simp)
  | cons c text =>
    have hc : isWordStart c = true := by simpa using hstart
    have hline : c ≠ '\n' := by
      rintro rfl
      exact absurd hc (by decide)
    rw [List.cons_append] at htake ⊢
    rw [munch, if_neg hline, if_pos hc, htake]

theorem wordKind_of_isName {x : String} (h : isName x = true) : wordKind x.toList = .name := by
  rw [isName, Bool.and_eq_true, Option.isNone_iff_eq_none] at h
  rw [wordKind, String.ofList_toList, h.2]
  rfl

/-- Reserved words are written like names, and found in their table. -/
theorem word_of_mem_reservedWords : ∀ w ∈ reservedWords,
    w.1.toList.head?.any isWordStart = true ∧ w.1.toList.all isWordChar = true ∧
      wordKind w.1.toList = w.2 ∧ w.2 ≠ .openParen := by
  decide +kernel

/-! ### Numbers -/

/-- A number is not read on into the end of a word. -/
theorem munchNumber_digits {text rest : List Char} (hne : text ≠ [])
    (hall : ∀ c ∈ text, isAsciiDigit c = true) (hrest : ∀ c ∈ rest.head?, c ∈ wordEnds) :
    munchNumber (text ++ rest) = some (.literal .int, text.length) := by
  have hends : ∀ c ∈ wordEnds, isAsciiDigit c = false ∧ c ≠ '.' ∧ c ≠ 'e' ∧ c ≠ 'E' :=
    List.all_iff_forall_prop.1 (by decide)
  have htake : (text ++ rest).takeWhile isAsciiDigit = text := by
    rw [List.takeWhile_append_of_pos hall]
    cases rest with
    | nil => simp
    | cons c rest =>
      rw [List.takeWhile_cons_of_neg (by simp [(hends c (hrest c rfl)).1]), List.append_nil]
  have hlength : text.length ≠ 0 := by simpa using hne
  rw [munchNumber, digitCount, htake, List.drop_left]
  cases rest with
  | nil => simp [hlength, exponentLength]
  | cons c rest =>
    obtain ⟨-, hpoint, he, hE⟩ := hends c (hrest c rfl)
    have hexponent : exponentLength (c :: rest) = 0 := by
      unfold exponentLength
      exact if_neg (by simp [he, hE])
    split
    · rename_i heq
      exact absurd (List.cons.inj heq).1 hpoint
    · rw [if_neg hlength, if_pos hexponent]

theorem isAsciiDigit_of_isDigit {c : Char} (h : c.isDigit = true) : isAsciiDigit c = true := by
  simpa [Char.isDigit, isAsciiDigit, Char.le_def] using h

theorem munch_int (n : Nat) {rest : List Char} (hrest : ∀ c ∈ rest.head?, c ∈ wordEnds) :
    munch (Nat.toDigits 10 n ++ rest) =
      some (.literal .int, (Nat.toDigits 10 n).length) := by
  have hdigits : ∀ c ∈ Nat.toDigits 10 n, isAsciiDigit c = true :=
    fun c hc ↦ isAsciiDigit_of_isDigit (Nat.isDigit_of_mem_toDigits (by decide) (by decide) hc)
  have hnumber := munchNumber_digits Nat.toDigits_ne_nil hdigits hrest
  rcases hn : Nat.toDigits 10 n with - | ⟨c, text⟩
  · exact absurd hn Nat.toDigits_ne_nil
  rw [hn] at hdigits hnumber
  have hc := hdigits c List.mem_cons_self
  have hline : c ≠ '\n' := by
    rintro rfl
    exact absurd hc (by decide)
  have hquote : ¬ (c = '"' ∨ c = '\'') := by
    rintro (rfl | rfl) <;> exact absurd hc (by decide)
  rw [List.cons_append] at hnumber ⊢
  rw [munch, if_neg hline, if_neg (by simp [isWordStart_of_isAsciiDigit hc]), if_neg hquote,
    hnumber]
  rfl

/-! ### Quoted texts -/

/-- A text in quotes ends at its closing quote. -/
theorem munch_string (s rest : List Char) :
    munch ('"' :: (escape '"' s ++ ['"']) ++ rest) =
      some (.literal .string, ('"' :: (escape '"' s ++ ['"'])).length) := by
  rw [QuotedPiece.escape_eq_written]
  exact munch_inQuotes (.inl rfl) (QuotedPiece.inside_of_mem_map_ofChar (by decide) s) rest

/-! ### Signs -/

/-- No sign is longer than two characters, so what stands behind those does not matter. -/
theorem munchSign_eq_take (text : List Char) : munchSign text = munchSign (text.take 2) := by
  have hlength : ∀ s ∈ signs, s.1.length ≤ 2 := by decide
  unfold munchSign
  refine congrArg _ (List.find?_congr fun s hs ↦ ?_)
  rw [Bool.eq_iff_iff, List.isPrefixOf_iff_prefix, List.isPrefixOf_iff_prefix,
    List.prefix_take_iff]
  exact ⟨fun h ↦ ⟨h, hlength s hs⟩, fun h ↦ h.1⟩

/-- A sign is not read on into the end of a word, nor an opening parenthesis into anything. -/
theorem munchSign_append {s : List Char} {k : Kind} (h : (s, k) ∈ signs) {rest : List Char}
    (hrest : ∀ c ∈ rest.head?, k ≠ .openParen → c ∈ wordEnds) :
    munchSign (s ++ rest) = some (k, s.length) := by
  have halone : ∀ s ∈ signs, munchSign (s.1.take 2) = some (s.2, s.1.length) := by decide
  have hbefore : ∀ s ∈ signs, s.2 ≠ .openParen → wordEnds.all fun c ↦
      munchSign ((s.1 ++ [c]).take 2) = some (s.2, s.1.length) := by decide
  cases rest with
  | nil =>
    rw [List.append_nil, munchSign_eq_take]
    exact halone _ h
  | cons c rest =>
    have hcut : (s ++ c :: rest).take 2 = (s ++ [c]).take 2 := by
      have hone : ∀ s ∈ signs, s.1 ≠ [] := by decide
      obtain ⟨a, s, rfl⟩ := List.exists_cons_of_ne_nil (hone _ h)
      cases s <;> simp
    rw [munchSign_eq_take, hcut]
    by_cases hk : k = .openParen
    · subst hk
      have hs : ∀ s ∈ signs, s.2 = .openParen → s.1 = ['('] := by decide
      obtain rfl : s = ['('] := hs _ h rfl
      rfl
    · exact List.all_iff_forall_prop.1 (hbefore _ h hk) c (hrest c rfl hk)

/-- No sign begins like anything else. -/
theorem munch_sign {s : List Char} {k : Kind} (h : (s, k) ∈ signs) {rest : List Char}
    (hrest : ∀ c ∈ rest.head?, k ≠ .openParen → c ∈ wordEnds) :
    munch (s ++ rest) = some (k, s.length) := by
  have hfirst : ∀ s ∈ signs, s.1.head?.any fun c ↦ c ≠ '\n' ∧ isWordStart c = false ∧
      ¬ (c = '"' ∨ c = '\'') ∧ isAsciiDigit c = false ∧ c ≠ '.' := by decide
  obtain ⟨c, hc, hnone⟩ := (Option.any_eq_true _ _).1 (hfirst _ h)
  obtain ⟨hline, hstart, hquote, hdigit, hpoint⟩ := of_decide_eq_true hnone
  have hsign := munchSign_append h hrest
  obtain ⟨text, rfl⟩ : ∃ text, s = c :: text := by
    cases s with
    | nil => exact absurd hc (by simp)
    | cons d text => exact ⟨text, by rw [Option.some.inj hc]⟩
  have hnumber : munchNumber (c :: text ++ rest) = none :=
    munchNumber_eq_none hdigit hpoint (text ++ rest)
  rw [List.cons_append] at hsign hnumber ⊢
  rw [munch, if_neg hline, if_neg (by simp [hstart]), if_neg hquote, hnumber, hsign]
  rfl

/-! ### Any word -/

namespace Word.Legible

/-- A word that can be written is read again, before anything that ends it. -/
theorem munch_append {w : Word} (h : w.Legible) {rest : List Char}
    (hrest : ∀ c ∈ rest.head?, w.kind.endsBefore c = true) :
    munch (w.text ++ rest) = some (w.kind, w.text.length) := by
  cases h with
  | @name x hx =>
    have hname : (x.toList.head?.any isWordStart && x.toList.all isWordChar) = true := by
      rw [isName, Bool.and_eq_true] at hx
      exact hx.1
    rw [Bool.and_eq_true] at hname
    rw [← wordKind_of_isName hx]
    exact munch_word hname.1 hname.2 fun c hc ↦
      isWordChar_of_mem_wordEnds c (mem_of_endsBefore (by simp) (hrest c hc))
  | int n => exact munch_int n fun c hc ↦ of_decide_eq_true (hrest c hc)
  | string s => exact munch_string s rest
  | @reserved x k hx =>
    obtain ⟨hstart, hall, hkind, hne⟩ := word_of_mem_reservedWords _ hx
    have hword := munch_word hstart hall fun c hc ↦
      isWordChar_of_mem_wordEnds c (mem_of_endsBefore hne (hrest c hc))
    rw [hkind] at hword
    exact hword
  | sign hs =>
    have hname : ∀ s ∈ signs, s.2 ≠ .name := by decide
    refine munch_sign hs fun c hc hk ↦ ?_
    rcases List.mem_cons.1 (mem_of_endsBefore hk (hrest c hc)) with rfl | hmem
    · exact absurd (eq_name_of_endsBefore hk (hrest _ hc)) (hname _ hs)
    · exact hmem

theorem isWord {w : Word} (h : w.Legible) : w.kind.isWord = true := by
  cases h with
  | name | int | string => rfl
  | reserved hx => exact isWord_of_mem_reservedWords _ hx
  | sign hs => exact (isWord_of_mem_signs _ hs).1

theorem ne_newline {w : Word} (h : w.Legible) : w.kind ≠ .newline := by
  intro hk
  have hword := h.isWord
  rw [hk] at hword
  exact absurd hword Bool.false_ne_true

/-- A word begins with none of the characters that are passed over between words, and with no line
end. -/
theorem exists_cons {w : Word} (h : w.Legible) :
    ∃ c text, w.text = c :: text ∧ c ∉ [' ', '\t', '\r', '#', '\n'] := by
  have hstart : ∀ x : List Char, x.head?.any isWordStart = true →
      ∃ c text, x = c :: text ∧ c ∉ [' ', '\t', '\r', '#', '\n'] := by
    intro x hx
    cases x with
    | nil => exact absurd hx (by simp)
    | cons c text =>
      have hnone : ∀ c ∈ [' ', '\t', '\r', '#', '\n'], isWordStart c = false :=
        List.all_iff_forall_prop.1 (by decide)
      refine ⟨c, text, rfl, fun hmem ↦ ?_⟩
      rw [List.head?_cons, Option.any_some, hnone c hmem] at hx
      exact absurd hx Bool.false_ne_true
  cases h with
  | @name x hx =>
    rw [isName, Bool.and_eq_true, Bool.and_eq_true] at hx
    exact hstart _ hx.1.1
  | int n =>
    rcases hn : Nat.toDigits 10 n with - | ⟨c, text⟩
    · exact absurd hn Nat.toDigits_ne_nil
    · have hc : c.isDigit = true :=
        Nat.isDigit_of_mem_toDigits (b := 10) (by decide) (by decide) (hn ▸ List.mem_cons_self)
      have hnone : ∀ c ∈ [' ', '\t', '\r', '#', '\n'], c.isDigit = false :=
        List.all_iff_forall_prop.1 (by decide)
      refine ⟨c, text, rfl, fun hmem ↦ ?_⟩
      rw [hnone c hmem] at hc
      exact absurd hc Bool.false_ne_true
  | string s => exact ⟨'"', _, rfl, by decide⟩
  | reserved hx => exact hstart _ (word_of_mem_reservedWords _ hx).1
  | sign hs =>
    have hfirst : ∀ s ∈ signs, s.1.head?.any (· ∉ [' ', '\t', '\r', '#', '\n']) := by decide
    obtain ⟨c, hc, hmem⟩ := (Option.any_eq_true _ _).1 (hfirst _ hs)
    obtain ⟨text, htext⟩ := List.head?_eq_some_iff.1 hc
    exact ⟨c, text, htext, of_decide_eq_true hmem⟩

/-- Punctuation ends the word before it. -/
theorem head_of_punctuation {w : Word} (h : w.Legible)
    (hk : w.kind ∈ [Kind.closeParen, .comma, .colon]) : ∃ c ∈ w.text.head?, c ∈ wordEnds := by
  cases h with
  | name | int | string => exact absurd hk (by simp)
  | reserved hx =>
    have hnone : ∀ w ∈ reservedWords, w.2 ∉ [Kind.closeParen, .comma, .colon] := by decide
    exact absurd hk (hnone _ hx)
  | sign hs =>
    have hfirst : ∀ s ∈ signs, s.2 ∈ [Kind.closeParen, .comma, .colon] →
        s.1.head?.any (· ∈ wordEnds) := by decide
    obtain ⟨c, hc, hmem⟩ := (Option.any_eq_true _ _).1 (hfirst _ hs hk)
    exact ⟨c, hc, of_decide_eq_true hmem⟩

theorem head_of_openParen {w : Word} (h : w.Legible) (hk : w.kind = .openParen) :
    w.text.head? = some '(' := by
  cases h with
  | name | int | string => exact absurd hk (by simp)
  | reserved hx =>
    have hnone : ∀ w ∈ reservedWords, w.2 ≠ .openParen := by decide
    exact absurd hk (hnone _ hx)
  | sign hs =>
    have hfirst : ∀ s ∈ signs, s.2 = .openParen → s.1.head? = some '(' := by decide
    exact hfirst _ hs hk

end Word.Legible

end Sangria
