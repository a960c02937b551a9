import Sangria.Proofs.Grammar.Continuing
import Sangria.Proofs.Parse.Safety

/-!
# Reading as a loop

Reading tokens is a loop: look at the state on top of the stack and at the token in sight, and then
take the token, put a phrase together, or end (`Reader.advance`). A state whose only entry is to put
a phrase together does so whatever is in sight (`State.default?`).

The loop is safe and ends, whatever tokens it is given (`reading_ends`): it ends with a program or
by refusing a token, after at most twenty steps for a token and one more, and wherever it is on the
way, the stack is high enough for the phrase to be put together, its parts mean what they are to
mean, and the table has a state behind it.

## What each part rests on

* `Reader.Sound.advances` says all that a step can do. It rests on the stack spelling derivations:
  then the parts that a production asks for lie on top, and they have meanings of their kinds.
* `Reader.measure_lt_of_advance` is why the loop ends. A token that is taken makes the stack higher,
  by so much less than it makes the rest shorter; a phrase lowers the measure of the stack.
* `Reader.Sound.choice_eq` says that the states that do not look at the token in sight would do the
  same if they did: they are entered with a token in sight that they have their entry for.
-/

namespace Sangria

/-! ### States that need not look -/

/-- The production that a state puts together whatever is in sight. -/
def State.default? : State → Option Production
  | .assignment => some .simpleAssignment
  | .bare => some .simpleBare
  | .noParams => some .noParams
  | .noArgs => some .noArgs
  | _ => none

/-- What a reader does in a state with a token of a kind in sight. -/
def State.choice (s : State) (k : Kind) : Option Action :=
  match s.default? with
  | some p => some (.reduce p)
  | none => action s k

/-- Whether a state that need not look has its entry for a kind. -/
def State.defaultFits (k : Kind) (s : State) : Bool :=
  s.default?.all fun p ↦ action s k = some (.reduce p)

/-- Whether an action enters a state that need not look only with the right token in sight: not by a
token, and by a phrase of those that lead there only if it is put together before that token. -/
def Action.entersFitting (s : State) (k : Kind) : Action → Bool
  | .shift s' => s'.default? = none
  | .reduce p =>
    match p.lhs with
    | .assignment | .bare => k = .newline
    | .nothing => p.rhs = [] && (goto s .nothing).all (·.defaultFits k)
    | _ => true
  | .accept => true

/-- The states that need not look are those with a single entry that puts a phrase together. They
stand behind a binding or an expression as a statement, or behind nothing, and every action enters
them with the right token in sight. -/
theorem State.default?_spec :
    (∀ s : State, s.default? =
      match Kind.all.filterMap (action s) with
      | [.reduce p] => some p
      | _ => none) ∧
    (∀ (q : State) (n : Nonterminal), (goto q n).all (fun s ↦
      n = .nothing || ((n = .assignment || n = .bare) && s.defaultFits .newline) ||
        s.default? = none) = true) ∧
    ∀ (s : State) (k : Kind), (action s k).all (·.entersFitting s k) = true := by
  decide +kernel

/-- Where its entry is for the token in sight, a state that need not look does what it would do if
it did. -/
theorem State.choice_eq {s : State} {k : Kind} (h : s.defaultFits k = true) :
    s.choice k = action s k := by
  rw [choice]
  unfold defaultFits at h
  split
  · rename_i p hp
    rw [hp, Option.all_some, decide_eq_true_eq] at h
    exact h.symm
  · rfl

/-- A state behind a token looks. -/
theorem State.defaultFits_of_shift {s s' : State} {k : Kind}
    (h : action s k = some (.shift s')) (k' : Kind) : s'.defaultFits k' = true := by
  have hcheck := State.default?_spec.2.2 s k
  rw [h, Option.all_some, Action.entersFitting, decide_eq_true_eq] at hcheck
  rw [defaultFits, hcheck, Option.all_none]

/-- A state behind a phrase that need not look has its entry for the token that was in sight. -/
theorem State.defaultFits_of_reduce {s q s' : State} {k : Kind} {p : Production}
    (h : action s k = some (.reduce p)) (hempty : p.rhs = [] → q = s)
    (hgoto : goto q p.lhs = some s') : s'.defaultFits k = true := by
  have hbehind := State.default?_spec.2.1 q p.lhs
  have haction := State.default?_spec.2.2 s k
  rw [hgoto, Option.all_some] at hbehind
  rw [h, Option.all_some, Action.entersFitting] at haction
  simp only [Bool.or_eq_true, Bool.and_eq_true, decide_eq_true_eq] at hbehind
  generalize p.lhs = n at hbehind haction hgoto
  rcases hbehind with (rfl | ⟨rfl | rfl, hfits⟩) | hlooks
  · obtain ⟨hnil, hall⟩ := Bool.and_eq_true_iff.1 haction
    obtain rfl := hempty (of_decide_eq_true hnil)
    rwa [hgoto, Option.all_some] at hall
  · obtain rfl := of_decide_eq_true haction
    exact hfits
  · obtain rfl := of_decide_eq_true haction
    exact hfits
  · rw [defaultFits, hlooks, Option.all_none]

/-! ### The loop -/

/-- A reader under way: what lies on its stack, and the tokens that it has not taken. -/
structure Reader where
  /-- The phrases read so far. -/
  stack : Stack
  /-- The tokens still to come. -/
  rest : List Lexeme

/-- What one step of a reader leads to. -/
inductive Progress
  /-- The reader is still under way. -/
  | moved (r : Reader)
  /-- The source is complete. -/
  | complete (program : Block)
  /-- Reading fails. -/
  | failed (f : ReadFault)

namespace Reader

/-- The reader of tokens before its first step. -/
def ofTokens (ts : List Lexeme) : Reader :=
  ⟨[], ts⟩

/-- The token in sight; behind all tokens the end of the source. -/
def sight (text : List Char) (r : Reader) : Lexeme :=
  r.rest.headD (eofLexeme text)

/-- One step. -/
def advance (text : List Char) (r : Reader) : Progress :=
  match r.stack.state.choice (r.sight text).kind with
  | none => .failed (.refused r.stack.state)
  | some .accept =>
    match r.stack with
    | ⟨_, .block b, _⟩ :: _ => .complete b
    | _ => .failed .stuck
  | some (.shift s) =>
    match r.rest with
    | t :: rest => .moved ⟨⟨s, .token t, t.offset⟩ :: r.stack, rest⟩
    | [] => .failed .stuck
  | some (.reduce p) =>
    match r.stack.reduce text (r.sight text).offset p with
    | .ok stack => .moved ⟨stack, r.rest⟩
    | .error f => .failed f

/-- A number of steps lead from one reader to another. -/
inductive Reaches (text : List Char) : Reader → Nat → Reader → Prop
  /-- None. -/
  | refl (r : Reader) : Reaches text r 0 r
  /-- One more behind some. -/
  | step {r r' r'' : Reader} {n : Nat} (before : Reaches text r n r')
      (last : r'.advance text = .moved r'') : Reaches text r (n + 1) r''

/-- What a step of a reader can do. -/
inductive Advances (text : List Char) (r : Reader) : Progress → Prop
  /-- The token in sight is there, and is taken. -/
  | taken {s : State} {t : Lexeme} {rest : List Lexeme}
      (table : r.stack.state.choice (r.sight text).kind = some (.shift s))
      (there : r.rest = t :: rest) :
      Advances text r (.moved ⟨⟨s, .token t, t.offset⟩ :: r.stack, rest⟩)
  /-- A phrase is put together: its parts are there and mean what they are to mean, the table has a
  state behind it, and it means what it is to mean. -/
  | reduced {p : Production} {s : State} {m : Meaning} {start : Nat}
      (table : r.stack.state.choice (r.sight text).kind = some (.reduce p))
      (deep : p.rhs.length ≤ r.stack.length)
      (parts : List.Forall₂ GrammarSymbol.Admits
        ((r.stack.take p.rhs.length).reverse.map (·.meaning)) p.rhs)
      (behind : goto (Stack.state (r.stack.drop p.rhs.length)) p.lhs = some s)
      (made : r.stack.reduce text (r.sight text).offset p =
        .ok (⟨s, m, start⟩ :: r.stack.drop p.rhs.length))
      (meaning : p.lhs.Admits m) :
      Advances text r (.moved ⟨⟨s, m, start⟩ :: r.stack.drop p.rhs.length, r.rest⟩)
  /-- The token in sight is refused. -/
  | refused (table : r.stack.state.choice (r.sight text).kind = none) :
      Advances text r (.failed (.refused r.stack.state))
  /-- All tokens were taken, and what was read is a program of at least one statement. -/
  | complete {c : Cell} {below : Stack} {b : Block}
      (table : r.stack.state.choice (r.sight text).kind = some .accept) (all : r.rest = [])
      (top : r.stack = c :: below) (meaning : c.meaning = .block b) (whole : b ≠ []) :
      Advances text r (.complete b)

/-! ### What a reader keeps -/

/-- What holds of a reader of tokens at every step. -/
structure Sound (text : List Char) (ts : List Lexeme) (r : Reader) : Prop where
  /-- The stack spells the tokens that were taken, and what is open closes before the next. -/
  spells : ∃ ds, r.stack.Spells text ds ∧ ClosesAhead (r.sight text).kind ds ∧
    readTokens ds ++ r.rest = ts
  /-- If the state need not look, its entry is for the token in sight. -/
  fits : r.stack.state.defaultFits (r.sight text).kind = true
  /-- What is read is not decided otherwise on the way. -/
  program : readProgram text (r.rest.map .ok) r.stack = readProgram text (ts.map .ok) []

end Reader

/-- A phrase of tokens that no literal fails on can be put together: its parts are there and have
meanings of their kinds, and so has the phrase. -/
theorem Stack.Spells.exists_made {text : List Char} {stack : Stack} {ds : List Derivation}
    {k : Kind} {p : Production} (h : stack.Spells text ds) (hfits : ∀ t ∈ readTokens ds, t.Fits)
    (ha : action stack.state k = some (.reduce p)) (next : Nat) :
    ∃ s m start, List.Forall₂ GrammarSymbol.Admits
        ((stack.take p.rhs.length).reverse.map (·.meaning)) p.rhs ∧
      goto (Stack.state (stack.drop p.rhs.length)) p.lhs = some s ∧
      stack.reduce text next p = .ok (⟨s, m, start⟩ :: stack.drop p.rhs.length) ∧
      p.lhs.Admits m := by
  obtain ⟨parts, rest, s, start, -, hparts, hmeans, -, hs, -, heq⟩ := h.reduce_eq ha next
  have hvalues := values_of_means hmeans
  have hshape := Derivation.forall₂_admits hparts hvalues fun d hd m ↦
    Derivation.admits_of_value (valid_of_means hmeans d hd)
  have hbuilds := build_of_fits text (Derivation.start (parts.flatMap Derivation.tokens)) hshape
  rw [Derivation.value_phrase hvalues] at heq
  generalize build text _ p _ = made at heq hbuilds
  rcases made with f | m
  · -- only a literal of too many digits fails, and there is none
    obtain ⟨-, u, digits, -, hlong, htop⟩ :=
      h.fault_of_reduce (fun u hu ↦ (hfits u hu).readable) ha heq
    exact absurd hlong ((hfits u (h.mem_of_top htop)).not_isLong digits)
  · cases hbuilds with
    | whole hadmits => exact ⟨s, m, start, hshape, hs, heq, hadmits⟩

namespace Reader

variable {text : List Char} {ts : List Lexeme} {r r' : Reader} {n : Nat}

theorem sound_ofTokens (text : List Char) (ts : List Lexeme) : (ofTokens ts).Sound text ts :=
  ⟨⟨[], .nil, closesAhead_nil _, rfl⟩, rfl, rfl⟩

theorem sight_of_rest_eq_nil (h : r.rest = []) : r.sight text = eofLexeme text := by
  rw [sight, h, List.headD_nil]

theorem sight_of_rest_eq_cons {t : Lexeme} {rest : List Lexeme} (h : r.rest = t :: rest) :
    r.sight text = t := by
  rw [sight, h, List.headD_cons]

/-- The end of the source is in sight only behind all tokens. -/
theorem rest_eq_nil (hts : ∀ t ∈ r.rest, t.kind ≠ .eof) (h : (r.sight text).kind = .eof) :
    r.rest = [] := by
  rcases hrest : r.rest with - | ⟨t, rest⟩
  · rfl
  · rw [sight_of_rest_eq_cons hrest] at h
    exact absurd h (hts t (hrest ▸ List.mem_cons_self))

/-- A reader does one of the things that a step can do, and nothing that it relies on is missing. -/
theorem Sound.advances (h : r.Sound text ts) (hts : ∀ t ∈ ts, t.kind ≠ .eof ∧ t.Fits) :
    r.Advances text (r.advance text) := by
  obtain ⟨ds, hspells, -, htokens⟩ := h.spells
  rw [← htokens, List.forall_mem_append] at hts
  have hchoice := State.choice_eq h.fits
  unfold advance
  rcases hc : r.stack.state.choice (r.sight text).kind with - | a
  · exact .refused hc
  have ha := hchoice.symm.trans hc
  cases a with
  | shift s =>
    rcases hrest : r.rest with - | ⟨t, rest⟩
    · -- behind all tokens nothing is taken
      refine absurd ?_ (State.ne_eof_of_shift ha)
      rw [sight_of_rest_eq_nil hrest]
      rfl
    · exact .taken hc hrest
  | reduce p =>
    obtain ⟨s, m, start, hparts, hgoto, hmade, hadmits⟩ :=
      hspells.exists_made (fun t ht ↦ (hts.1 t ht).2) ha (r.sight text).offset
    dsimp only
    rw [hmade]
    exact .reduced hc (Stack.exists_of_reduce_eq_ok hmade).1 hparts hgoto hmade hadmits
  | accept =>
    obtain ⟨hstate, hkind⟩ := State.eq_of_accept ha
    rcases hstack : r.stack with - | ⟨c, below⟩
    · rw [hstack] at hstate
      exact absurd hstate (by simp [Stack.state])
    · rw [hstack] at hspells ha
      obtain ⟨d, -, hsymbol, hvalid, hvalue⟩ := hspells.of_accept ha
      have hadmits := Derivation.admits_of_value hvalid hvalue
      rw [hsymbol] at hadmits
      obtain ⟨b, hb, hne, -⟩ : Nonterminal.Admits c.meaning .program := hadmits
      obtain ⟨state, meaning, start⟩ := c
      obtain rfl : meaning = .block b := hb
      exact .complete hc (rest_eq_nil (fun t ht ↦ (hts.2 t ht).1) hkind) hstack rfl hne

/-- A step keeps what holds of a reader. -/
theorem Sound.of_advance (h : r.Sound text ts) (hts : ∀ t ∈ ts, t.kind ≠ .eof ∧ t.Fits)
    (hr : r.advance text = .moved r') : r'.Sound text ts := by
  have hadvances := h.advances hts
  obtain ⟨ds, hspells, hcloses, htokens⟩ := h.spells
  have hchoice := State.choice_eq h.fits
  rw [hr] at hadvances
  cases hadvances with
  | @taken s t rest table hrest =>
    rw [sight_of_rest_eq_cons hrest] at hchoice hcloses table
    have ha := hchoice.symm.trans table
    refine ⟨⟨.token t :: ds, hspells.of_shift hcloses ha, closesAhead_token _ t ds, ?_⟩,
      State.defaultFits_of_shift ha _, ?_⟩
    · rw [readTokens_cons, ← htokens, hrest, List.append_assoc]
      rfl
    · rw [← h.program, hrest, List.map_cons, readProgram_of_shift ha]
  | @reduced p s m start table _ _ hgoto hmade _ =>
    have ha := hchoice.symm.trans table
    obtain ⟨ds', hspells', hcloses', htokens'⟩ := hspells.of_reduce hcloses ha hmade
    refine ⟨⟨ds', hspells', hcloses', by rw [htokens', htokens]⟩, ?_, ?_⟩
    · refine State.defaultFits_of_reduce ha (fun hempty ↦ ?_) hgoto
      rw [hempty]
      rfl
    · have hahead : ahead text (r.rest.map .ok) = some (r.sight text) := by
        rw [sight]
        cases r.rest <;> rfl
      rw [← h.program, readProgram_of_reduce hahead ha hmade]

/-- What bounds the steps that are still to come. -/
def measure (r : Reader) : Nat :=
  r.stack.measure + 20 * r.rest.length

/-- Every step lowers the measure. -/
theorem Sound.measure_lt_of_advance (h : r.Sound text ts)
    (hts : ∀ t ∈ ts, t.kind ≠ .eof ∧ t.Fits) (hr : r.advance text = .moved r') :
    r'.measure < r.measure := by
  have hadvances := h.advances hts
  rw [hr] at hadvances
  cases hadvances with
  | @taken s t rest _ hrest =>
    have hrank := s.rank_le
    rw [measure, measure, Stack.measure, Stack.measure, hrest, List.length_cons, List.length_cons]
    show 8 * (r.stack.length + 1) + s.rank + 20 * rest.length < _
    omega
  | reduced table _ _ _ hmade =>
    have hlt := Stack.measure_lt_of_reduce ((State.choice_eq h.fits).symm.trans table) hmade
    exact Nat.add_lt_add_right hlt _

/-- Steps keep what holds of a reader, and there are no more of them than the measure says. -/
theorem Sound.of_reaches (h : r.Sound text ts) (hts : ∀ t ∈ ts, t.kind ≠ .eof ∧ t.Fits)
    (hr : r.Reaches text n r') : r'.Sound text ts ∧ n + r'.measure ≤ r.measure := by
  induction hr with
  | refl => exact ⟨h, Nat.le_of_eq (Nat.zero_add _)⟩
  | step _ hlast ih =>
    obtain ⟨hsound, hmeasure⟩ := ih
    have hlt := hsound.measure_lt_of_advance hts hlast
    exact ⟨hsound.of_advance hts hlast, by omega⟩

/-- From every reader that was reached the last one is. -/
theorem Sound.exists_last (h : r.Sound text ts) (hts : ∀ t ∈ ts, t.kind ≠ .eof ∧ t.Fits)
    (hr : r.Reaches text n r') :
    ∃ m last, r.Reaches text m last ∧ ∀ next, last.advance text ≠ .moved next := by
  induction hm : r'.measure using Nat.strongRecOn generalizing r' n with
  | ind measure ih =>
    subst hm
    by_cases hmoves : ∃ next, r'.advance text = .moved next
    · obtain ⟨next, hnext⟩ := hmoves
      have hlt := (h.of_reaches hts hr).1.measure_lt_of_advance hts hnext
      exact ih _ hlt (hr.step hnext) rfl
    · exact ⟨n, r', hr, not_exists.1 hmoves⟩

/-- Where a reader stands still, it has decided what is read. -/
theorem Sound.decided (h : r.Sound text ts) (hts : ∀ t ∈ ts, t.kind ≠ .eof ∧ t.Fits)
    (hlast : ∀ next, r.advance text ≠ .moved next) :
    (∃ b, r.advance text = .complete b ∧ readProgram text (ts.map .ok) [] = .ok b) ∨
      ∃ s, r.advance text = .failed (.refused s) ∧
        readProgram text (ts.map .ok) [] = .error (.reported (refusal text s (r.sight text))) := by
  have hadvances := h.advances hts
  have hchoice := State.choice_eq h.fits
  rw [← h.program]
  generalize r.advance text = outcome at hadvances hlast
  cases hadvances with
  | taken => exact absurd rfl (hlast _)
  | reduced => exact absurd rfl (hlast _)
  | refused table =>
    have ha := hchoice.symm.trans table
    refine .inr ⟨_, rfl, ?_⟩
    have hfeed : r.stack.feed text (r.sight text) = .error (.refused r.stack.state) := by
      rw [Stack.feed_eq, Stack.settled_eq, ha]
    rcases hrest : r.rest with - | ⟨t, rest⟩
    · rw [sight_of_rest_eq_nil hrest] at hfeed ⊢
      rw [List.map_nil, readProgram, hfeed]
      rfl
    · rw [sight_of_rest_eq_cons hrest] at hfeed ⊢
      rw [List.map_cons, readProgram, hfeed]
      rfl
  | @complete c below b table hall htop hmeaning =>
    have ha := hchoice.symm.trans table
    refine .inl ⟨b, rfl, ?_⟩
    rw [sight_of_rest_eq_nil hall] at ha
    obtain ⟨state, meaning, start⟩ := c
    obtain rfl : meaning = .block b := hmeaning
    have hfeed : r.stack.feed text (eofLexeme text) = .ok (.complete b) := by
      rw [Stack.feed_eq, Stack.settled_eq, ha, htop]
    rw [hall, List.map_nil, readProgram, hfeed]

end Reader

/-- Reading tokens is safe and ends, whatever tokens there are, if no literal among them fails.
Wherever a reader is on the way, it can do what the table says (`Reader.Advances`), and it has
taken at most twenty steps for a token and one more. There is a last step: it ends with a program,
or refuses a token, and that is what is read. -/
theorem reading_ends (text : List Char) (ts : List Lexeme)
    (hts : ∀ t ∈ ts, t.kind ≠ .eof ∧ t.Fits) :
    (∀ n r, (Reader.ofTokens ts).Reaches text n r →
      n ≤ 20 * ts.length + 1 ∧ r.Advances text (r.advance text)) ∧
    ∃ n r, (Reader.ofTokens ts).Reaches text n r ∧
      ((∃ b, r.advance text = .complete b ∧ readProgram text (ts.map .ok) [] = .ok b) ∨
        ∃ s, r.advance text = .failed (.refused s) ∧ readProgram text (ts.map .ok) [] =
          .error (.reported (refusal text s (r.sight text)))) := by
  have hsound := Reader.sound_ofTokens text ts
  refine ⟨fun n r hr ↦ ?_, ?_⟩
  · obtain ⟨hr, hmeasure⟩ := hsound.of_reaches hts hr
    have hstart : (Reader.ofTokens ts).measure = 20 * ts.length + 1 := Nat.add_comm _ _
    exact ⟨by omega, hr.advances hts⟩
  · obtain ⟨n, last, hr, hlast⟩ := hsound.exists_last hts (.refl _)
    exact ⟨n, last, hr, (hsound.of_reaches hts hr).1.decided hts hlast⟩

/-- A call on a line of its own is read in at most a hundred steps and one. -/
theorem reading_ends_call :
    let text := "f(1)\n".toList
    let ts : List Lexeme := [⟨.name, "f", 1, 0⟩, ⟨.openParen, "(", 1, 1⟩,
      ⟨.literal .int, "1", 1, 2⟩, ⟨.closeParen, ")", 1, 3⟩, ⟨.newline, "\n", 1, 4⟩]
    (∀ t ∈ ts, t.kind ≠ .eof ∧ t.Fits) ∧
      ∃ n r, n ≤ 101 ∧ (Reader.ofTokens ts).Reaches text n r ∧ r.Advances text (r.advance text) ∧
        ∃ b, r.advance text = .complete b := by
  intro text ts
  have hts : ∀ t ∈ ts, t.kind ≠ .eof ∧ t.Fits := by
    have hall : ∀ t ∈ ts, t.kind ≠ .eof ∧ t.kind ≠ .literal .float ∧
        t.text.toList.length ≤ maxDigits := by
      decide
    intro t ht
    obtain ⟨hne, hfloat, hshort⟩ := hall t ht
    exact ⟨hne, fun h ↦ absurd h hfloat, fun _ ↦ hshort⟩
  have hread : readProgram text (ts.map .ok) [] =
      .ok [⟨⟨1, 1⟩, .eval (.call "f" [.literal (.int 1)])⟩] := by
    rfl
  obtain ⟨hsteps, n, r, hr, hlast⟩ := reading_ends text ts hts
  obtain ⟨hn, hadvances⟩ := hsteps n r hr
  refine ⟨hts, n, r, hn, hr, hadvances, ?_⟩
  rcases hlast with ⟨b, hb, -⟩ | ⟨s, -, hs⟩
  · exact ⟨b, hb⟩
  · exact absurd (hread.symm.trans hs) (by simp)

end Sangria
