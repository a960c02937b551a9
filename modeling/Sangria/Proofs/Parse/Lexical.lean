import Sangria.Proofs.Parse.Refusing
import Sangria.Proofs.Token.Tiling

/-!
# Faults in the tokens, met while parsing

A parse takes one token after the other, so it need not come upon the fault of a source that cannot
be cut into tokens: it may refuse a token first, or fail on the digits of a literal. But it finds no
program there, and what it reports instead stands at the fault or before it. Where it does come upon
the fault, that is the one that cutting the source into tokens tells of (`lexical_faults_agree`).

Both ways of reading a source see the same deliveries. So all that is left to say is where the
tokens stand that are delivered before a fault, which is what tiling the source is about
(`exists_tiles_of_error`).
-/

namespace Sangria

/-! ### Faults of the reader and faults of its tokens -/

section Faults

variable {text : List Char} {deliveries : List Delivery} {stack : Stack} {d : Diagnostic}

/-- A failure that a reader reports is its own, or one that was delivered to it. -/
theorem phase_or_mem_of_readProgram
    (h : readProgram text deliveries stack = .error (.reported d)) :
    d.phase = .syntactic ∨ .error d ∈ deliveries := by
  have of_feed {t : Lexeme} {f : ReadFault} (hf : f.toParseFault text t = .reported d) :
      d.phase = .syntactic := by
    cases f with
    | refused s => exact ParseFault.reported.inj hf ▸ rfl
    | _ => exact absurd hf (by simp [ReadFault.toParseFault])
  induction deliveries generalizing stack with
  | nil =>
    rw [readProgram] at h
    split at h
    · exact absurd h (by simp)
    · exact absurd h (by simp)
    · exact .inl (of_feed (Except.error.inj h))
  | cons delivery rest ih =>
    rcases delivery with d' | t
    · obtain rfl := ParseFault.reported.inj (Except.error.inj h)
      exact .inr List.mem_cons_self
    · rw [readProgram] at h
      split at h
      · exact (ih h).imp_right (List.mem_cons_of_mem _)
      · exact absurd h (by simp)
      · exact .inl (of_feed (Except.error.inj h))

/-- Nothing is read where a fault is delivered. -/
theorem readProgram_ne_ok_of_mem (h : .error d ∈ deliveries) (b : Block) :
    readProgram text deliveries stack ≠ .ok b := by
  induction deliveries generalizing stack with
  | nil => exact absurd h List.not_mem_nil
  | cons delivery rest ih =>
    rcases delivery with d' | t
    · exact fun hb ↦ absurd hb (by simp [readProgram])
    · have hrest := (List.mem_cons.1 h).resolve_left (by simp)
      rw [readProgram]
      split
      · exact ih hrest
      · simp
      · simp

end Faults

/-! ### Sources that cannot be cut into tokens -/

/-- A fault that is delivered is that of the source. -/
theorem tokenize_eq_error_of_mem {source : String} {d : Diagnostic}
    (h : .error d ∈ deliveries source.toList (.ofText source.toList) .initial) :
    tokenize source = .error d := by
  rcases exists_delivers_or_error source.toList (.ofText source.toList) .initial with
    ⟨ts, hts⟩ | ⟨ts, d', hd⟩
  · rw [deliveries_of_delivers hts] at h
    exact absurd h (by simp)
  · rw [hd] at h
    obtain rfl : d = d' := by simpa using h
    exact tokenize_eq_error_iff.2 ⟨ts, hd⟩

/-- An integer literal of too many digits that is among tokens ends where they do, or before. -/
theorem Tiles.end_le_of_isLong {front back : List Char} {ts : List Lexeme} {literal : Lexeme}
    {digits : Nat} (h : Tiles front back (ts.filter (·.isWritten))) (hts : literal ∈ ts)
    (hlong : literal.IsLong digits) : literal.offset + literal.text.length ≤ front.length := by
  have hwritten : literal.isWritten = true := by
    rw [Lexeme.isWritten, hlong.kind]
    rfl
  exact h.end_le literal (List.mem_filter.2 ⟨hts, hwritten⟩)

/-- A token that is in sight before a fault is one of those delivered before it. -/
theorem mem_of_ahead {text : List Char} {ts us : List Lexeme} {rest : List Delivery}
    {d : Diagnostic} {t : Lexeme} (h : ts.map .ok ++ [.error d] = us.map .ok ++ rest)
    (ht : ahead text rest = some t) : t ∈ ts := by
  rcases rest with - | ⟨d' | u, rest⟩
  · -- the fault is still to come
    have hmem : (.error d : Delivery) ∈ us.map Except.ok := by
      rw [← List.append_nil (us.map _), ← h]
      exact List.mem_append_right _ (List.mem_singleton_self _)
    exact absurd hmem (by simp)
  · exact absurd ht (by simp [ahead])
  · obtain rfl := Option.some.inj ht
    have hmem : (.ok u : Delivery) ∈ ts.map Except.ok ++ [.error d] := by
      rw [h]
      exact List.mem_append_right _ List.mem_cons_self
    simpa using hmem

/-- A source whose parse reports a fault in the tokens has that one. Where a source has one, the
parse of it reports that, or refuses a token that stands at the fault or before it, or comes upon an
integer literal of too many digits that ends there. So a parse of a source that has tokens fails by
its own account only. -/
theorem lexical_faults_agree (source : String) :
    (∀ d, parse source = .error (.reported d) → d.phase = .lexical → tokenize source = .error d) ∧
    (∀ d, tokenize source = .error d → ∃ k : Nat,
      d.position = some (.ofOffset source.toList k) ∧
      (parse source = .error (.reported d) ∨
        (∃ e p, parse source = .error (.reported e) ∧ e.phase = .syntactic ∧ e.position = some p ∧
          (p = .ofOffset source.toList k ∨ p.Before (.ofOffset source.toList k))) ∨
        ∃ literal digits, parse source = .error (.tooLong digits) ∧ literal.IsLong digits ∧
          .ok literal ∈ (TokenStream.ofText source.toList).drain.1 ∧
          literal.offset + literal.text.length ≤ k)) ∧
    ∀ tokens, tokenize source = .ok tokens →
      ∀ d, parse source = .error (.reported d) → d.phase = .syntactic := by
  refine ⟨fun d h hd ↦ ?_, fun d h ↦ ?_, fun tokens h d hd ↦ ?_⟩
  · rw [parse_eq_readProgram] at h
    rcases phase_or_mem_of_readProgram h with hsyntactic | hmem
    · exact absurd (hd.symm.trans hsyntactic) (by decide)
    · exact tokenize_eq_error_of_mem hmem
  · obtain ⟨ts, k, hds, ⟨f, rfl⟩, hk, htiles, hoffsets⟩ := exists_tiles_of_error h
    refine ⟨k, rfl, ?_⟩
    rcases hparse : parse source with f' | b
    · rcases fault_of_parse hparse with
        ⟨e, rfl⟩ | ⟨digits, rfl, us, literal, t, rest, -, hus, -, hlong, -⟩
      · rw [parse_eq_readProgram] at hparse
        rcases phase_or_mem_of_readProgram hparse with hsyntactic | hmem
        · obtain ⟨us, t, rest, -, s, hus, hahead, -, -, rfl⟩ :=
            exists_refused phase_of_mem_deliveries hsyntactic hparse
          have hle := hoffsets t (mem_of_ahead (hds.symm.trans hus) hahead)
          have hposition := Position.eq_or_before_of_le hle (Nat.le_of_lt hk)
          exact .inr (.inl ⟨_, _, rfl, rfl, rfl, hposition⟩)
        · rw [hds] at hmem
          obtain rfl : e = f.diagnostic source.toList k := by simpa using hmem
          exact .inl rfl
      · have hmem : .ok literal ∈ deliveries source.toList (.ofText source.toList) .initial := by
          rw [hus]
          exact List.mem_append_left _ (by simp)
        have hts : literal ∈ ts := by
          rw [hds] at hmem
          simpa using hmem
        have hend := htiles.end_le_of_isLong hts hlong
        rw [List.length_take_of_le (Nat.le_of_lt hk)] at hend
        exact .inr (.inr ⟨literal, digits, rfl, hlong, hmem, hend⟩)
    · rw [parse_eq_readProgram, hds] at hparse
      have hmem := List.mem_append_right (ts.map .ok) (List.mem_singleton_self
        (Except.error (f.diagnostic source.toList k) : Delivery))
      exact absurd hparse (readProgram_ne_ok_of_mem hmem b)
  · obtain ⟨ts, hts, -⟩ := tokenize_eq_ok_iff.1 h
    rw [parse_eq_readProgram, deliveries_of_delivers hts] at hd
    exact (phase_or_mem_of_readProgram hd).resolve_right (by simp)

/-- A sign that begins no token is met behind a number, but not behind a parenthesis that closes
nothing, which is refused before it; and it is nothing but that parenthesis that is wrong behind a
number alone. -/
theorem lexical_faults_agree_sign :
    let fault : Diagnostic := ⟨.lexical, "carácter ilegal '$'", some ⟨1, 3⟩, []⟩
    (parse "1 $" = .error (.reported fault) ∧ tokenize "1 $" = .error fault) ∧
      (tokenize ") $" = .error fault ∧
        ∃ e p, parse ") $" = .error (.reported e) ∧ e.position = some p ∧
          (p = ⟨1, 3⟩ ∨ p.Before ⟨1, 3⟩)) ∧
      ∃ tokens d, tokenize "1 )" = .ok tokens ∧ parse "1 )" = .error (.reported d) ∧
        d.phase = .syntactic := by
  intro fault
  have hmet : parse "1 $" = .error (.reported fault) := by rfl
  have hfault : tokenize ") $" = .error fault := by rfl
  obtain ⟨e, he, hsyntactic⟩ : ∃ e, parse ") $" = .error (.reported e) ∧ e.phase = .syntactic :=
    ⟨_, by rfl, rfl⟩
  obtain ⟨d, hd⟩ : ∃ d, parse "1 )" = .error (.reported d) := ⟨_, by rfl⟩
  obtain ⟨tokens, htokens⟩ : ∃ tokens, tokenize "1 )" = .ok tokens := ⟨_, by rfl⟩
  refine ⟨⟨hmet, (lexical_faults_agree _).1 _ hmet rfl⟩, ⟨hfault, ?_⟩, tokens, d, htokens, hd,
    (lexical_faults_agree _).2.2 _ htokens _ hd⟩
  obtain ⟨k, hk, hends⟩ := (lexical_faults_agree ") $").2.1 fault hfault
  obtain hposition : Position.ofOffset ") $".toList k = ⟨1, 3⟩ := (Option.some.inj hk).symm
  rw [he, hposition] at hends
  rcases hends with h | ⟨e', p, h, -, hp, horder⟩ | ⟨_, _, h, -⟩
  · -- what is reported there is no fault of the tokens
    obtain rfl := ParseFault.reported.inj (Except.error.inj h)
    exact absurd hsyntactic (by decide)
  · exact ⟨e', p, he.trans h, hp, horder⟩
  · exact absurd h (by simp)

end Sangria
