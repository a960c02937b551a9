import Sangria.Proofs.Grammar.Continuing
import Sangria.Proofs.Parse.Safety

/-!
# The first token that is wrong is refused

A reader may put phrases together before it looks at a token in earnest, but it takes none that it
could not go on from: the tokens that it has taken begin a program (`beginsProgram_of_takes`). So a
token is refused only if no program goes on with it, and then it is the first such token
(`first_refused`). The end of the source is treated as a token here, one that a program goes on with
if it ends there.

Literals are left aside: a reader takes an integer literal of too many digits, and fails later.
-/

namespace Sangria

/-- A program is read off some tokens that begin with these. -/
def BeginsProgram (text : List Char) (ts : List Lexeme) : Prop :=
  ∃ us b, readProgram text ((ts ++ us).map .ok) [] = .ok b

/-- A program is read off some tokens that begin with these and go on with one more, or end there if
that is the end of the source. -/
def GoesOnWith (text : List Char) (ts : List Lexeme) (t : Lexeme) : Prop :=
  ∃ us b, ahead text (us.map .ok) = some t ∧ readProgram text ((ts ++ us).map .ok) [] = .ok b

variable {text : List Char} {stack stack' : Stack} {ts : List Lexeme} {t : Lexeme}

/-- Tokens that a reader takes begin a program. -/
theorem beginsProgram_of_takes (hfits : ∀ u ∈ ts, u.Fits) (h : Stack.Takes text [] ts stack) :
    BeginsProgram text ts := by
  obtain ⟨ds, hspells, -, htokens⟩ := Stack.Spells.of_takes h .nil closesAhead_nil
  have hread : readTokens ds = ts := htokens
  obtain ⟨us, d, b, -, hvalid, hsymbol, hd, hvalue⟩ :=
    hspells.exists_program (by rw [hread]; exact hfits)
  refine ⟨us, b, ?_⟩
  rw [← hread, ← hd]
  exact readProgram_of_derivation hvalid hsymbol hvalue

/-- No program goes on with a token that is refused. -/
theorem not_goesOnWith (h : Stack.Takes text [] ts stack) {f : ReadFault}
    (hf : stack.feed text t = .error f) : ¬ GoesOnWith text ts t := by
  rintro ⟨us, b, hahead, hr⟩
  rw [List.map_append, readProgram_of_takes h] at hr
  cases us with
  | nil =>
    obtain rfl := Option.some.inj hahead
    rw [List.map_nil, readProgram, hf] at hr
    exact absurd hr (by simp)
  | cons u us =>
    obtain rfl := Option.some.inj hahead
    rw [List.map_cons, readProgram, hf] at hr
    exact absurd hr (by simp)

/-- The faults that are delivered are not those of a reader. -/
theorem phase_of_mem_deliveries {scanner : Scanner} {layout : Layout} :
    ∀ d, .error d ∈ deliveries text scanner layout → d.phase = .lexical := by
  induction scanner, layout using deliveries_induction text with
  | finished s next l hs =>
    intro d hd
    obtain ⟨u, -, heq⟩ := List.mem_map.1 hd
    exact absurd heq (by simp)
  | illegal s next l c hs =>
    intro d hd
    obtain rfl := Except.error.inj (List.mem_singleton.1 hd)
    rfl
  | fault s next l t tokens f hs ht =>
    intro d hd
    rcases List.mem_append.1 hd with hd | hd
    · obtain ⟨u, -, heq⟩ := List.mem_map.1 hd
      exact absurd heq (by simp)
    · obtain rfl := Except.error.inj (List.mem_singleton.1 hd)
      rfl
  | lexeme s next l l' t tokens hs ht ih =>
    intro d hd
    rcases List.mem_append.1 hd with hd | hd
    · obtain ⟨u, -, heq⟩ := List.mem_map.1 hd
      exact absurd heq (by simp)
    · exact ih d hd

/-- A reader that fails with a diagnostic of its own has taken the tokens before one that it
refuses. -/
theorem exists_refused {deliveries : List Delivery} {d : Diagnostic}
    (hlexical : ∀ d, .error d ∈ deliveries → d.phase = .lexical) (hd : d.phase = .syntactic)
    (hr : readProgram text deliveries stack = .error (.reported d)) :
    ∃ ts t rest stack' s, deliveries = ts.map .ok ++ rest ∧ ahead text rest = some t ∧
      stack.Takes text ts stack' ∧ stack'.feed text t = .error (.refused s) ∧
      d = refusal text s t := by
  have of_feed {t : Lexeme} {f : ReadFault}
      (hf : f.toParseFault text t = .reported d) :
      ∃ s, f = .refused s ∧ d = refusal text s t := by
    cases f with
    | refused s => exact ⟨s, rfl, (ParseFault.reported.inj hf).symm⟩
    | _ => exact absurd hf (by simp [ReadFault.toParseFault])
  induction deliveries generalizing stack with
  | nil =>
    rw [readProgram] at hr
    rcases hfeed : stack.feed text (eofLexeme text) with f | stack' | b
    · rw [hfeed] at hr
      obtain ⟨s, rfl, hs⟩ := of_feed (Except.error.inj hr)
      exact ⟨[], _, [], stack, s, rfl, rfl, .nil stack, hfeed, hs⟩
    · rw [hfeed] at hr
      exact absurd hr (by simp)
    · rw [hfeed] at hr
      exact absurd hr (by simp)
  | cons delivery rest ih =>
    rcases delivery with d' | t
    · -- a fault of the tokens is none of the reader's
      obtain rfl := ParseFault.reported.inj (Except.error.inj hr)
      exact absurd ((hlexical _ List.mem_cons_self).symm.trans hd) (by decide)
    · rw [readProgram] at hr
      rcases hfeed : stack.feed text t with f | stack' | b
      · rw [hfeed] at hr
        obtain ⟨s, rfl, hs⟩ := of_feed (Except.error.inj hr)
        exact ⟨[], t, .ok t :: rest, stack, s, rfl, rfl, .nil stack, hfeed, hs⟩
      · rw [hfeed] at hr
        obtain ⟨ts, u, rest', stack'', s, rfl, hahead, htakes, hrefused, hs⟩ :=
          ih (fun d hd ↦ hlexical d (List.mem_cons_of_mem _ hd)) hr
        exact ⟨t :: ts, u, rest', stack'', s, rfl, hahead, .cons hfeed htakes, hrefused, hs⟩
      · rw [hfeed] at hr
        exact absurd hr (by simp)

/-- Tokens that a reader takes, with no literal that fails among them, begin a program. So where a
parse reports a failure of its own, it does so at the first token of the source that no program goes
on with, or at its end: the tokens before it begin a program, unless one of them is an integer
literal of too many digits. -/
theorem first_refused :
    (∀ text ts stack, (∀ u ∈ ts, Lexeme.Fits u) → Stack.Takes text [] ts stack →
      BeginsProgram text ts) ∧
    ∀ source d, parse source = .error (.reported d) → d.phase = .syntactic →
      ∃ ts t rest s,
        deliveries source.toList (.ofText source.toList) .initial = ts.map .ok ++ rest ∧
        ahead source.toList rest = some t ∧ d = refusal source.toList s t ∧
        ((∀ u ∈ ts, u.kind = .literal .int → u.text.toList.length ≤ maxDigits) →
          BeginsProgram source.toList ts) ∧
        ¬ GoesOnWith source.toList ts t := by
  refine ⟨fun _ _ _ ↦ beginsProgram_of_takes, fun source d h hd ↦ ?_⟩
  rw [parse_eq_readProgram] at h
  obtain ⟨ts, t, rest, stack, s, hds, hahead, htakes, hrefused, hs⟩ :=
    exists_refused phase_of_mem_deliveries hd h
  refine ⟨ts, t, rest, s, hds, hahead, hs, fun hshort ↦ ?_, not_goesOnWith htakes hrefused⟩
  refine beginsProgram_of_takes (fun u hu ↦ ⟨?_, hshort u hu⟩) htakes
  have hmem : .ok u ∈ deliveries source.toList (.ofText source.toList) .initial := by
    rw [hds]
    exact List.mem_append_left _ (List.mem_map_of_mem hu)
  exact (proper_of_mem_deliveries u hmem).1

/-- The word of a definition begins a program, and so do the tokens of a source before a parenthesis
that closes nothing, where no program goes on with that. -/
theorem first_refused_paren :
    let word : Lexeme := ⟨.defWord, "def", 1, 0⟩
    let paren : Lexeme := ⟨.closeParen, ")", 1, 4⟩
    let d := refusal "1 + )".toList (.before (.right (.apply .add))) paren
    Stack.Takes "def".toList [] [word] [⟨.defWord, .token word, 0⟩] ∧
      BeginsProgram "def".toList [word] ∧
      parse "1 + )" = .error (.reported d) ∧ d.phase = .syntactic ∧
      ∃ ts t, d.position = some (.ofOffset "1 + )".toList t.offset) ∧
        BeginsProgram "1 + )".toList ts ∧ ¬ GoesOnWith "1 + )".toList ts t := by
  intro word paren d
  have htakes : Stack.Takes "def".toList [] [word] [⟨.defWord, .token word, 0⟩] :=
    .cons (by rfl) (.nil _)
  have hfits : ∀ u ∈ [word], u.Fits :=
    List.forall_mem_singleton.2 ⟨fun h ↦ absurd h (by decide), fun h ↦ absurd h (by decide)⟩
  have hparse : parse "1 + )" = .error (.reported d) := by rfl
  obtain ⟨ts, t, rest, s, hds, -, hd, hbegins, hnot⟩ := first_refused.2 _ d hparse rfl
  refine ⟨htakes, first_refused.1 _ _ _ hfits htakes, hparse, rfl, ts, t, ?_, hbegins ?_, hnot⟩
  · rw [hd]
    rfl
  · -- the only number among the tokens of the source has one digit
    obtain ⟨all, hall, hshort⟩ : ∃ all : List Lexeme,
        deliveries "1 + )".toList (.ofText "1 + )".toList) .initial = all.map .ok ∧
          ∀ u ∈ all, u.kind = .literal .int → u.text.toList.length ≤ maxDigits :=
      ⟨[⟨.literal .int, "1", 1, 0⟩, ⟨.connective (.apply .add), "+", 1, 2⟩,
        ⟨.closeParen, ")", 1, 4⟩, ⟨.newline, "", 1, 5⟩], by rfl, by decide⟩
    intro u hu
    have hmem := List.mem_append_left rest (List.mem_map_of_mem (f := Except.ok) hu)
    rw [← hds, hall, List.mem_map] at hmem
    obtain ⟨v, hv, hvu⟩ := hmem
    exact Except.ok.inj hvu ▸ hshort v hv

end Sangria
