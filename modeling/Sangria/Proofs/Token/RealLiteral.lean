import Sangria.Number.Numeral
import Sangria.Proofs.Token.Munching

/-!
# Real literals are decimals

What is munched as a real literal is a decimal: reading it back takes all of it
(`isSome_readDecimal_of_munchNumber`). The two sides agree part by part, on the digits before the
point, those behind it, and the exponent.
-/

namespace Sangria

/-- Digits in front of something else are all the digits there. -/
theorem takeWhile_digits_append {digits rest : List Char}
    (hdigits : ∀ c ∈ digits, isAsciiDigit c = true)
    (hrest : ∀ c ∈ rest.head?, isAsciiDigit c = false) :
    (digits ++ rest).takeWhile isAsciiDigit = digits ∧
      (digits ++ rest).dropWhile isAsciiDigit = rest := by
  rw [List.takeWhile_append_of_pos hdigits, List.dropWhile_append_of_pos hdigits]
  cases rest with
  | nil => exact ⟨List.append_nil _, rfl⟩
  | cons c rest =>
    have hc := hrest c rfl
    rw [List.takeWhile_cons_of_neg (by simp [hc]), List.dropWhile_cons_of_neg (by simp [hc])]
    exact ⟨List.append_nil _, rfl⟩

theorem take_digitCount (text : List Char) :
    text.take (digitCount text) = text.takeWhile isAsciiDigit :=
  (List.prefix_iff_eq_take.1 (List.takeWhile_prefix _)).symm

theorem isAsciiDigit_of_mem_takeWhile {text : List Char} :
    ∀ c ∈ text.takeWhile isAsciiDigit, isAsciiDigit c = true :=
  List.all_eq_true.1 List.all_takeWhile

/-- A sign in front is split off, and digits have none. -/
theorem splitSign_digits {digits : List Char} (h : ∀ c ∈ digits, isAsciiDigit c = true) :
    splitSign digits = (false, digits) := by
  cases digits with
  | nil => rfl
  | cons c rest =>
    have hc := h c List.mem_cons_self
    unfold splitSign
    split
    · rename_i heq
      obtain ⟨rfl, -⟩ := List.cons.inj heq
      exact absurd hc (by decide)
    · rename_i heq
      obtain ⟨rfl, -⟩ := List.cons.inj heq
      exact absurd hc (by decide)
    · rfl

theorem exponentLength_of_sign {e c : Char} (he : e = 'e' ∨ e = 'E') (hc : c = '+' ∨ c = '-')
    (rest : List Char) : exponentLength (e :: c :: rest) =
      if digitCount rest = 0 then 0 else digitCount rest + 2 := by
  simp only [exponentLength, if_pos he, if_pos hc, List.drop_succ_cons, List.drop_zero]
  rw [Nat.add_comm]

theorem exponentLength_of_no_sign {e c : Char} (he : e = 'e' ∨ e = 'E')
    (hc : ¬ (c = '+' ∨ c = '-')) (rest : List Char) : exponentLength (e :: c :: rest) =
      if digitCount (c :: rest) = 0 then 0 else digitCount (c :: rest) + 1 := by
  simp only [exponentLength, if_pos he, if_neg hc, List.drop_zero]
  rw [Nat.add_zero, Nat.add_comm]

/-- An exponent part, where there is one: its letter, perhaps a sign, and digits. -/
theorem exists_of_exponentLength_ne_zero {text : List Char} (h : exponentLength text ≠ 0) :
    ∃ e sign digits, text.take (exponentLength text) = e :: (sign ++ digits) ∧
      (e = 'e' ∨ e = 'E') ∧ (sign = [] ∨ sign = ['+'] ∨ sign = ['-']) ∧ digits ≠ [] ∧
      ∀ c ∈ digits, isAsciiDigit c = true := by
  have digits_ne_nil {text : List Char} (h : digitCount text ≠ 0) :
      text.takeWhile isAsciiDigit ≠ [] := fun hnil ↦ h (congrArg List.length hnil)
  rcases text with - | ⟨e, rest⟩
  · exact absurd rfl h
  by_cases he : e = 'e' ∨ e = 'E'
  · rcases rest with - | ⟨c, rest⟩
    · exact absurd (if_pos he) h
    by_cases hc : c = '+' ∨ c = '-'
    · rw [exponentLength_of_sign he hc] at h ⊢
      have hdigits : digitCount rest ≠ 0 := fun hzero ↦ h (if_pos hzero)
      refine ⟨e, [c], rest.takeWhile isAsciiDigit, ?_, he, ?_, digits_ne_nil hdigits,
        isAsciiDigit_of_mem_takeWhile⟩
      · rw [if_neg hdigits, List.take_succ_cons, List.take_succ_cons, take_digitCount]
        rfl
      · rcases hc with rfl | rfl
        · exact .inr (.inl rfl)
        · exact .inr (.inr rfl)
    · rw [exponentLength_of_no_sign he hc] at h ⊢
      have hdigits : digitCount (c :: rest) ≠ 0 := fun hzero ↦ h (if_pos hzero)
      refine ⟨e, [], (c :: rest).takeWhile isAsciiDigit, ?_, he, .inl rfl, digits_ne_nil hdigits,
        isAsciiDigit_of_mem_takeWhile⟩
      rw [if_neg hdigits, List.take_succ_cons, take_digitCount]
      rfl
  · exact absurd (if_neg he) h

/-- An exponent part is read to its end. -/
theorem splitExponent_eq {e : Char} {sign digits : List Char} (he : e = 'e' ∨ e = 'E')
    (hsign : sign = [] ∨ sign = ['+'] ∨ sign = ['-']) (hdigits : digits ≠ [])
    (hall : ∀ c ∈ digits, isAsciiDigit c = true) :
    (splitExponent (e :: (sign ++ digits))).2 = [] := by
  have hsplit : (splitSign (sign ++ digits)).2 = digits := by
    rcases hsign with rfl | rfl | rfl
    · rw [List.nil_append, splitSign_digits hall]
    · rfl
    · rfl
  have hwhile := @takeWhile_digits_append digits [] hall (by simp)
  rw [List.append_nil] at hwhile
  rw [splitExponent]
  dsimp only
  rw [hsplit, hwhile.1, hwhile.2, if_neg]
  rw [not_or]
  refine ⟨fun h ↦ ?_, by simpa using hdigits⟩
  exact he.elim h.1 h.2

/-- The exponent part at the front of a text begins with no digit and no point, and is read to its
end. -/
theorem exponentPart (text : List Char) :
    (∀ c ∈ (text.take (exponentLength text)).head?, isAsciiDigit c = false ∧ c ≠ '.') ∧
      (splitExponent (text.take (exponentLength text))).2 = [] := by
  by_cases h : exponentLength text = 0
  · rw [h, List.take_zero]
    exact ⟨by simp, rfl⟩
  · obtain ⟨e, sign, digits, heq, he, hsign, hdigits, hall⟩ := exists_of_exponentLength_ne_zero h
    rw [heq]
    refine ⟨fun c hc ↦ ?_, splitExponent_eq he hsign hdigits hall⟩
    obtain rfl : e = c := Option.some.inj hc
    rcases he with rfl | rfl <;> decide

section Read

variable {whole places exponent : List Char} (hwhole : ∀ c ∈ whole, isAsciiDigit c = true)
  (hhead : ∀ c ∈ exponent.head?, isAsciiDigit c = false ∧ c ≠ '.')
  (hexponent : (splitExponent exponent).2 = [])

include hwhole hhead hexponent

/-- Digits with a point and an exponent part are a decimal. -/
theorem isSome_readDecimal_of_point (hplaces : ∀ c ∈ places, isAsciiDigit c = true)
    (hne : whole ++ places ≠ []) :
    (readDecimal (whole ++ '.' :: (places ++ exponent))).isSome = true := by
  have hpoint : ∀ c ∈ ('.' :: (places ++ exponent)).head?, isAsciiDigit c = false := by
    intro c hc
    obtain rfl := Option.some.inj hc
    decide
  obtain ⟨htake, hdrop⟩ := takeWhile_digits_append hwhole hpoint
  obtain ⟨htake', hdrop'⟩ := takeWhile_digits_append hplaces fun c hc ↦ (hhead c hc).1
  have hempty : (whole ++ places).isEmpty = false := by simpa using hne
  simp only [readDecimal, splitDecimal, htake, hdrop, htake', hdrop', hempty, Bool.false_eq_true,
    if_false, hexponent]
  rfl

/-- Digits with an exponent part are a decimal. -/
theorem isSome_readDecimal_of_no_point (hne : whole ≠ []) :
    (readDecimal (whole ++ exponent)).isSome = true := by
  obtain ⟨htake, hdrop⟩ := takeWhile_digits_append hwhole fun c hc ↦ (hhead c hc).1
  cases exponent with
  | nil =>
    rw [List.append_nil] at htake hdrop ⊢
    simp [readDecimal, splitDecimal, htake, hdrop, hne, splitExponent]
  | cons e rest =>
    have hpoint : e ≠ '.' := (hhead e rfl).2
    simp [readDecimal, splitDecimal, htake, hdrop, hpoint, hne, hexponent]

end Read

/-- What is munched as a real number is a decimal. -/
theorem isSome_readDecimal_of_munchNumber {text : List Char} {n : Nat}
    (h : munchNumber text = some (.literal .float, n)) :
    (readDecimal (text.take n)).isSome = true := by
  have hwhole := take_digitCount text
  have hdigits : ∀ c ∈ text.takeWhile isAsciiDigit, isAsciiDigit c = true :=
    isAsciiDigit_of_mem_takeWhile
  have hlength : (text.takeWhile isAsciiDigit).length = digitCount text := rfl
  unfold munchNumber at h
  dsimp only at h
  split at h
  · rename_i rest heq
    split at h
    · exact absurd h (by simp)
    · rename_i hsome
      obtain ⟨-, rfl⟩ := Prod.mk.inj (Option.some.inj h)
      obtain ⟨hhead, hexponent⟩ := exponentPart (rest.drop (digitCount rest))
      -- the digits, the point, the places and the exponent, in a row
      have htake : text.take (digitCount text + 1 + digitCount rest +
          exponentLength (rest.drop (digitCount rest))) =
          text.takeWhile isAsciiDigit ++ '.' :: (rest.takeWhile isAsciiDigit ++
            (rest.drop (digitCount rest)).take (exponentLength (rest.drop (digitCount rest)))) := by
        rw [Nat.add_assoc, Nat.add_assoc, List.take_add, hwhole, heq, Nat.add_comm 1,
          List.take_succ_cons, List.take_add, take_digitCount]
      rw [htake]
      refine isSome_readDecimal_of_point hdigits hhead hexponent isAsciiDigit_of_mem_takeWhile ?_
      intro hnil
      obtain ⟨hw, hp⟩ := List.append_eq_nil_iff.1 hnil
      exact hsome ⟨congrArg List.length hw, congrArg List.length hp⟩
  · split at h
    · exact absurd h (by simp)
    · rename_i hne
      split at h
      · exact absurd h (by simp)
      · obtain ⟨-, rfl⟩ := Prod.mk.inj (Option.some.inj h)
        obtain ⟨hhead, hexponent⟩ := exponentPart (text.drop (digitCount text))
        rw [List.take_add, hwhole]
        exact isSome_readDecimal_of_no_point hdigits hhead hexponent
          fun hnil ↦ hne (congrArg List.length hnil)

theorem ne_float_of_mem_reservedWords : ∀ w ∈ reservedWords, w.2 ≠ .literal .float := by
  decide

theorem ne_float_of_mem_signs : ∀ s ∈ signs, s.2 ≠ .literal .float := by
  decide

/-- A token that is a real literal is a decimal. -/
theorem isSome_readDecimal_of_munch {text : List Char} {n : Nat}
    (h : munch text = some (.literal .float, n)) : (readDecimal (text.take n)).isSome = true := by
  unfold munch at h
  split at h
  · exact absurd h (by simp)
  · split at h
    · exact absurd h (by simp)
    · split at h
      · -- no word is a real literal
        obtain ⟨hkind, -⟩ := Prod.mk.inj (Option.some.inj h)
        rcases wordKind_cases _ with hname | hreserved
        · exact absurd (hname.symm.trans hkind) (by simp)
        · exact absurd hkind (ne_float_of_mem_reservedWords _ hreserved)
      · split at h
        · obtain ⟨m, -, heq⟩ := Option.map_eq_some_iff.1 h
          exact absurd heq (by simp)
        · rcases Option.or_eq_some_iff.1 h with h | ⟨-, h⟩
          · exact isSome_readDecimal_of_munchNumber h
          · obtain ⟨s, hs, heq⟩ := Option.map_eq_some_iff.1 h
            exact absurd (Prod.mk.inj heq).1
              (ne_float_of_mem_signs s (List.mem_of_find?_eq_some hs))

end Sangria
