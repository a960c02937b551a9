import Sangria.Proofs.Grammar.Safety
import Sangria.Proofs.Parse.Soundness
import Sangria.Proofs.Token.RealLiteral

/-!
# How parsing fails

A parse never gets stuck, and it fails on the digits of a literal in one case only, which can be
told from the tokens alone: the reader takes all tokens up to an integer literal of too many digits,
and the next token may stand behind an expression (`parse_eq_tooLong_iff`). Otherwise a parse that
finds no program reports a diagnostic (`fault_of_parse`).
-/

namespace Sangria

/-! ### Taking tokens -/

/-- A reader takes tokens one after the other. -/
inductive Stack.Takes (text : List Char) : Stack → List Lexeme → Stack → Prop
  /-- None. -/
  | nil (stack : Stack) : Takes text stack [] stack
  /-- One, and then others. -/
  | cons {stack stack' stack'' : Stack} {t : Lexeme} {ts : List Lexeme}
      (fed : stack.feed text t = .ok (.taken stack')) (rest : Takes text stack' ts stack'') :
      Takes text stack (t :: ts) stack''

section Takes

variable {text : List Char} {stack stack' : Stack} {ts : List Lexeme} {t : Lexeme}
  {ds : List Derivation}

/-- Taking tokens does not change what a program is read as. -/
theorem readProgram_of_takes (h : stack.Takes text ts stack') (rest : List Delivery) :
    readProgram text (ts.map .ok ++ rest) stack = readProgram text rest stack' := by
  induction h with
  | nil => rfl
  | cons hfed _ ih => rw [List.map_cons, List.cons_append, readProgram, hfed, ← ih]

/-- A token is taken when no more phrases are put together before it. -/
theorem Stack.exists_of_feed (h : stack.feed text t = .ok (.taken stack')) :
    ∃ below s, stack.Reduces text t below ∧ action below.state t.kind = some (.shift s) ∧
      stack' = ⟨s, .token t, t.offset⟩ :: below := by
  obtain ⟨below, hreduces, hrests⟩ := stack.exists_rests text t
  rw [Stack.feed_eq] at h
  generalize stack.settled text t = outcome at h hrests
  cases hrests with
  | @ready s ha =>
    obtain rfl := Fed.taken.inj (Except.ok.inj h)
    exact ⟨below, s, hreduces, ha, rfl⟩
  | complete => exact absurd (Except.ok.inj h) (by simp)
  | _ => exact absurd h (by simp)

/-- The end of the source is not taken. -/
theorem Stack.ne_eof_of_feed (h : stack.feed text t = .ok (.taken stack')) : t.kind ≠ .eof := by
  obtain ⟨below, s, -, ha, -⟩ := Stack.exists_of_feed h
  exact State.ne_eof_of_shift ha

/-- The source is complete at its end only. -/
theorem Stack.eq_eof_of_feed {b : Block} (h : stack.feed text t = .ok (.complete b)) :
    t.kind = .eof := by
  obtain ⟨below, -, hrests⟩ := stack.exists_rests text t
  rw [Stack.feed_eq] at h
  generalize stack.settled text t = outcome at h hrests
  cases hrests with
  | complete ha => exact (State.eq_of_accept ha).2
  | ready => exact absurd (Except.ok.inj h) (by simp)
  | _ => exact absurd h (by simp)

/-- A token that cannot be fed is one before which reading fails. -/
theorem Stack.settled_of_feed {f : ReadFault} (h : stack.feed text t = .error f) :
    stack.settled text t = .error f := by
  rw [Stack.feed_eq] at h
  split at h
  · exact absurd h (by simp)
  · exact absurd h (by simp)
  · rename_i f' hs
    rw [hs, Except.error.inj h]

/-- Tokens that are taken are spelled on top of those before them. -/
theorem Stack.Spells.of_takes (hs : stack.Takes text ts stack') (h : stack.Spells text ds)
    (hk : ∀ k, ClosesAhead k ds) :
    ∃ ds', stack'.Spells text ds' ∧ (∀ k, ClosesAhead k ds') ∧
      readTokens ds' = readTokens ds ++ ts := by
  induction hs generalizing ds with
  | nil => exact ⟨ds, h, hk, (List.append_nil _).symm⟩
  | @cons _ _ _ t _ hfed _ ih =>
    obtain ⟨below, s, hreduces, ha, rfl⟩ := Stack.exists_of_feed hfed
    obtain ⟨ds₁, h₁, hk₁, htokens₁⟩ := h.of_reduces hreduces (hk t.kind)
    obtain ⟨ds₂, h₂, hk₂, htokens₂⟩ :=
      ih (h₁.of_shift hk₁ ha) fun k ↦ closesAhead_token k t ds₁
    refine ⟨ds₂, h₂, hk₂, ?_⟩
    rw [htokens₂, readTokens_cons, htokens₁, List.append_assoc]
    rfl

/-- The last token that was taken is on top, in the state behind it. -/
theorem Stack.Takes.exists_of_append (h : stack.Takes text (ts ++ [t]) stack') :
    ∃ below s q, action q t.kind = some (.shift s) ∧
      stack' = ⟨s, .token t, t.offset⟩ :: below := by
  generalize hall : ts ++ [t] = all at h
  induction h generalizing ts with
  | nil => exact absurd hall (by simp)
  | @cons _ _ _ u us hfed hrest ih =>
    rcases ts with - | ⟨v, vs⟩
    · obtain ⟨rfl, rfl⟩ := List.cons.inj hall
      obtain ⟨below, s, -, ha, rfl⟩ := Stack.exists_of_feed hfed
      cases hrest
      exact ⟨below, s, below.state, ha, rfl⟩
    · exact ih (List.cons.inj hall).2

/-- A reader is behind an integer literal of too many digits, with a token in sight that may stand
behind an expression. -/
structure BehindLong (text : List Char) (rest : List Delivery) (stack : Stack) (digits : Nat) :
    Prop where
  /-- The literal is on top of the stack. -/
  top : ∃ u, u.IsLong digits ∧ stack.state = .literal .int ∧
    stack.head?.map (·.meaning) = some (.token u)
  /-- An expression may end there. -/
  follows : ∃ t ∈ ahead text rest, followsExpr t.kind = true

/-- A reader that is given proper tokens fails with a diagnostic, or behind an integer literal of
too many digits. -/
theorem fault_of_readProgram {deliveries : List Delivery} {f : ParseFault}
    (h : stack.Spells text ds) (hk : ∀ k, ClosesAhead k ds)
    (hread : ∀ u ∈ readTokens ds, u.Readable)
    (hproper : ∀ u, .ok u ∈ deliveries → u.Readable ∧ u.kind ≠ .eof)
    (hr : readProgram text deliveries stack = .error f) :
    (∃ d, f = .reported d) ∨
      ∃ (ts : List Lexeme) (rest : List Delivery) (stack' : Stack) (digits : Nat),
        f = .tooLong digits ∧ deliveries = ts.map .ok ++ rest ∧ stack.Takes text ts stack' ∧
        BehindLong text rest stack' digits := by
  induction deliveries generalizing stack ds with
  | nil =>
    rw [readProgram] at hr
    rcases hfeed : stack.feed text (eofLexeme text) with f' | stack' | b
    · rw [hfeed] at hr
      obtain rfl := Except.error.inj hr
      rcases h.fault_of_settled hread (hk _) (Stack.settled_of_feed hfeed) with
        ⟨s, rfl⟩ | ⟨u, n, rfl, hlong, hstate, htop, hfollows⟩
      · exact .inl ⟨_, rfl⟩
      · exact .inr ⟨[], [], stack, n, rfl, rfl, .nil stack, ⟨u, hlong, hstate, htop⟩, _, rfl,
          hfollows⟩
    · exact absurd rfl (Stack.ne_eof_of_feed hfeed)
    · rw [hfeed] at hr
      exact absurd hr (by simp)
  | cons delivery rest ih =>
    rcases delivery with d | t
    · exact .inl ⟨d, (Except.error.inj hr).symm⟩
    obtain ⟨hreadable, hne⟩ := hproper t List.mem_cons_self
    rw [readProgram] at hr
    rcases hfeed : stack.feed text t with f' | stack' | b
    · rw [hfeed] at hr
      obtain rfl := Except.error.inj hr
      rcases h.fault_of_settled hread (hk _) (Stack.settled_of_feed hfeed) with
        ⟨s, rfl⟩ | ⟨u, n, rfl, hlong, hstate, htop, hfollows⟩
      · exact .inl ⟨_, rfl⟩
      · exact .inr ⟨[], .ok t :: rest, stack, n, rfl, rfl, .nil stack, ⟨u, hlong, hstate, htop⟩, t,
          rfl, hfollows⟩
    · rw [hfeed] at hr
      obtain ⟨ds', h', hk', htokens⟩ := h.of_takes (.cons hfeed (.nil stack')) hk
      have hread' : ∀ u ∈ readTokens ds', u.Readable := by
        rw [htokens, List.forall_mem_append, List.forall_mem_singleton]
        exact ⟨hread, hreadable⟩
      rcases ih h' hk' hread' (fun u hu ↦ hproper u (List.mem_cons_of_mem _ hu)) hr with
        hd | ⟨ts, rest', stack'', n, hf, rfl, htakes', hlong⟩
      · exact .inl hd
      · exact .inr ⟨t :: ts, rest', stack'', n, hf, rfl, .cons hfeed htakes', hlong⟩
    · exact absurd (Stack.eq_eof_of_feed hfeed) hne

/-- Behind an integer literal of too many digits, with a token in sight that may stand behind an
expression, reading fails on the digits. -/
theorem readProgram_of_behindLong {rest : List Delivery} {digits : Nat}
    (h : stack.Spells text ds) (hlong : BehindLong text rest stack digits) :
    readProgram text rest stack = .error (.tooLong digits) := by
  obtain ⟨⟨u, hu, hstate, htop⟩, t, ht, hfollows⟩ := hlong
  have ha : action stack.state t.kind = some (.reduce (.literal .int)) := by
    rw [hstate]
    show reduceIf (followsExpr t.kind) _ = _
    rw [hfollows]
    rfl
  have hreduce : stack.reduce text t.offset (.literal .int) = .error (.tooLong digits) := by
    obtain ⟨parts, -, s, start, -, -, hmeans, -, -, -, heq⟩ := h.reduce_eq ha t.offset
    obtain ⟨c, below, rfl, hc⟩ : ∃ c below, stack = c :: below ∧ c.meaning = .token u := by
      cases stack with
      | nil => exact absurd htop (by simp)
      | cons c below => exact ⟨c, below, rfl, Option.some.inj htop⟩
    have hvalue : (Derivation.phrase (.literal .int) parts).value text =
        .error (.tooLong digits) := by
      rw [Derivation.value_phrase (values_of_means hmeans)]
      show build text _ (.literal .int) [c.meaning] = _
      rw [hc]
      show (literalValue .int u.text.toList).map _ = _
      rw [literalValue, hu.length, if_pos hu.long]
      rfl
    rw [heq, hvalue]
    rfl
  have hfeed : stack.feed text t = .error (.tooLong digits) := by
    rw [Stack.feed_eq, Stack.settled_of_reduce ha, hreduce]
  cases rest with
  | nil =>
    obtain rfl := Option.some.inj ht
    rw [readProgram, hfeed]
    rfl
  | cons delivery rest =>
    cases delivery with
    | ok u =>
      obtain rfl := Option.some.inj ht
      rw [readProgram, hfeed]
      rfl
    | error f => exact absurd ht (by simp [ahead])

end Takes

/-! ### The tokens of a source -/

/-- A token that a scanner finds is not the end of the source, and is a decimal if it is a real
literal. -/
theorem proper_of_scan {s next : Scanner} {t : Lexeme} (h : s.scan = .lexeme t next) :
    t.Readable ∧ t.kind ≠ .eof := by
  refine ⟨fun hkind ↦ ?_, fun hkind ↦ ?_⟩
  · obtain ⟨c, rest, n, -, hmunch, htext, -⟩ := Scanner.exists_munch_of_scan h
    rw [htext, String.toList_ofList]
    rw [hkind] at hmunch
    exact isSome_readDecimal_of_munch hmunch
  · rcases Scanner.kind_of_scan h with ⟨hnewline, -⟩ | hword
    · exact absurd (hkind.symm.trans hnewline) (by decide)
    · rw [hkind] at hword
      exact absurd hword (by decide)

/-- A token that is announced is neither. -/
theorem proper_of_kind {t : Lexeme} (h : t.kind = .indent ∨ t.kind = .dedent ∨ t.kind = .newline) :
    t.Readable ∧ t.kind ≠ .eof := by
  rcases h with h | h | h <;> exact ⟨fun h' ↦ absurd (h.symm.trans h') (by decide), by simp [h]⟩

/-- What a lexeme adds is the lexeme, and what it announces. -/
theorem Layout.eq_or_kind_of_mem_take {text : List Char} {l : Layout} {t u : Lexeme}
    (h : u ∈ (l.take text t).1) : u = t ∨ u.kind = .indent ∨ u.kind = .dedent := by
  have hannounced : ∀ v ∈ (startLine l.levels (indentWidth text t.offset) t).1,
      v.kind = .indent ∨ v.kind = .dedent := by
    intro v hv
    unfold startLine at hv
    split at hv
    · exact .inl (by rw [List.mem_singleton.1 hv]; rfl)
    · obtain ⟨w, -, rfl⟩ := List.mem_map.1 hv
      exact .inr rfl
  unfold take at h
  split at h
  · split at h
    · exact absurd h List.not_mem_nil
    · exact .inl (List.mem_singleton.1 h)
  · dsimp only at h
    split at h
    · split at h
      · rename_i heq
        rw [heq] at hannounced
        rcases List.mem_append.1 h with h | h
        · exact .inr (hannounced u h)
        · exact .inl (List.mem_singleton.1 h)
      · rename_i heq
        rw [heq] at hannounced
        exact .inr (hannounced u h)
    · exact .inl (List.mem_singleton.1 h)

/-- Tokens that are delivered are none of the end of the source, and their real literals are
decimals. -/
theorem proper_of_mem_deliveries {text : List Char} {scanner : Scanner} {layout : Layout} :
    ∀ u, .ok u ∈ deliveries text scanner layout → u.Readable ∧ u.kind ≠ .eof := by
  have htake {s next : Scanner} {l : Layout} {t u : Lexeme} (hs : s.scan = .lexeme t next)
      (hu : u ∈ (l.take text t).1) : u.Readable ∧ u.kind ≠ .eof := by
    rcases Layout.eq_or_kind_of_mem_take hu with rfl | hkind
    · exact proper_of_scan hs
    · exact proper_of_kind (hkind.imp_right .inl)
  induction scanner, layout using deliveries_induction text with
  | finished s next l hs =>
    intro u hu
    obtain ⟨v, hv, heq⟩ := List.mem_map.1 hu
    obtain rfl := Except.ok.inj heq
    rcases List.mem_append.1 hv with hv | hv
    · split at hv
      · exact absurd hv List.not_mem_nil
      · exact proper_of_kind (.inr (.inr (by rw [List.mem_singleton.1 hv])))
    · obtain ⟨w, -, rfl⟩ := List.mem_map.1 hv
      exact proper_of_kind (.inr (.inl rfl))
  | illegal s next l c hs =>
    exact fun u hu ↦ absurd (List.mem_singleton.1 hu) (by simp)
  | fault s next l t tokens f hs ht =>
    intro u hu
    rcases List.mem_append.1 hu with hu | hu
    · obtain ⟨v, hv, heq⟩ := List.mem_map.1 hu
      obtain rfl := Except.ok.inj heq
      exact htake hs (by rw [ht]; exact hv)
    · exact absurd (List.mem_singleton.1 hu) (by simp)
  | lexeme s next l l' t tokens hs ht ih =>
    intro u hu
    rcases List.mem_append.1 hu with hu | hu
    · obtain ⟨v, hv, heq⟩ := List.mem_map.1 hu
      obtain rfl := Except.ok.inj heq
      exact htake hs (by rw [ht]; exact hv)
    · exact ih u hu

/-! ### All of a parse -/

/-- The reader of a source takes its tokens up to an integer literal of so many digits, which are
too many, and the next token may stand behind an expression. -/
def ReadsLong (source : String) (digits : Nat) : Prop :=
  ∃ (ts : List Lexeme) (literal next : Lexeme) (rest : List Delivery) (stack : Stack),
    deliveries source.toList (.ofText source.toList) .initial =
      (ts ++ [literal]).map .ok ++ rest ∧
    Stack.Takes source.toList [] (ts ++ [literal]) stack ∧ literal.IsLong digits ∧
    ahead source.toList rest = some next ∧ followsExpr next.kind = true

/-- A parse that finds no program reports a diagnostic, or comes upon an integer literal of too many
digits. -/
theorem fault_of_parse {source : String} {f : ParseFault} (h : parse source = .error f) :
    (∃ d, f = .reported d) ∨ ∃ digits, f = .tooLong digits ∧ ReadsLong source digits := by
  rw [parse_eq_readProgram] at h
  rcases fault_of_readProgram .nil closesAhead_nil
    (fun _ hu ↦ absurd hu List.not_mem_nil) proper_of_mem_deliveries h with
    hd | ⟨ts, rest, stack, digits, rfl, hds, htakes, ⟨⟨u, hlong, hstate, htop⟩, t, ht, hfollows⟩⟩
  · exact .inl hd
  · refine .inr ⟨digits, rfl, ?_⟩
    rcases List.eq_nil_or_concat ts with rfl | ⟨us, v, rfl⟩
    · -- nothing was taken yet at the start
      cases htakes
      exact absurd hstate (by simp [Stack.state])
    · rw [List.concat_eq_append] at htakes hds
      obtain ⟨below, s, q, -, rfl⟩ := htakes.exists_of_append
      obtain rfl : v = u := Meaning.token.inj (Option.some.inj htop)
      exact ⟨us, v, t, rest, _, hds, htakes, hlong, ht, hfollows⟩

/-- A parse fails on the digits of a literal exactly when the reader gets so far. -/
theorem parse_eq_tooLong_iff {source : String} {digits : Nat} :
    parse source = .error (.tooLong digits) ↔ ReadsLong source digits := by
  constructor
  · intro h
    rcases fault_of_parse h with ⟨d, hd⟩ | ⟨n, hn, hreads⟩
    · exact absurd hd (by simp)
    · obtain rfl := ParseFault.tooLong.inj hn
      exact hreads
  · rintro ⟨ts, literal, next, rest, stack, hds, htakes, hlong, hnext, hfollows⟩
    obtain ⟨ds, hspells, -, -⟩ :=
      Stack.Spells.of_takes htakes .nil closesAhead_nil
    rw [parse_eq_readProgram, hds, readProgram_of_takes htakes]
    refine readProgram_of_behindLong hspells ⟨⟨literal, hlong, ?_, ?_⟩, next, hnext, hfollows⟩
    · obtain ⟨below, s, q, ha, rfl⟩ := htakes.exists_of_append
      rw [hlong.kind] at ha
      exact State.eq_of_step_literal_token (State.step_token_eq_some_iff.2 ha)
    · obtain ⟨below, s, q, -, rfl⟩ := htakes.exists_of_append
      rfl

end Sangria
