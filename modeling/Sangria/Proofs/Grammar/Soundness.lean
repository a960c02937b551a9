import Sangria.Proofs.Grammar.Beginning
import Sangria.Proofs.Grammar.Reading

/-!
# What a reader has read

A stack spells derivations, one for each cell (`Stack.Spells`): the state of a cell is the one
behind the derivation's symbol, the meaning is the derivation's value, and the derivation is valid.
Two further facts about a cell say where precedence was looked at when it was pushed: an expression
that waits for its operator's end opens inside that operator, and what lies below a connective
closes before it.

Putting a phrase together turns the derivations of its parts into one (`Stack.Spells.of_reduce`).
That the left operand of a connective closes before it cannot be seen when the operand is put
together, because the connective is only in sight then. So reading carries one more fact from
phrase to phrase, about the derivation on top and the next token (`ClosesAhead`), and hands it over
when the token is taken.

The main statement is `exists_derivation_of_readProgram`: what is read off tokens is the value of a
valid derivation of those tokens.
-/

namespace Sangria

/-- What a cell means is the value of a derivation, and it starts where that does. -/
structure Cell.Means (text : List Char) (c : Cell) (d : Derivation) : Prop where
  /-- The derivation is one of the grammar and respects precedence. -/
  valid : d.Valid
  /-- Its value is the cell's meaning. -/
  value : d.value text = .ok c.meaning
  /-- The cell starts at the first token, if there is one. -/
  start : ∀ t ∈ d.tokens.head?, c.start = t.offset

/-- A cell stands for a derivation, on top of a stack that spells others. -/
structure Cell.Stands (text : List Char) (below : Stack) (others : List Derivation) (c : Cell)
    (d : Derivation) : Prop extends Cell.Means text c d where
  /-- The state is the one behind the derivation's symbol. -/
  edge : below.state.step d.symbol = some c.state
  /-- An expression that is an operand opens inside its operator. -/
  opens : ∀ s, c.state = .after s → ∀ o ∈ s.operation?, ∀ k ∈ d.connective?,
    k.precedence.OpensInside o.2
  /-- What lies below a connective closes before it. -/
  closes : ∀ k, c.state = .before (.right k) → ∀ left ∈ others.head?, ∀ p ∈ left.rightSpine,
    p.ClosesBefore k.precedence

/-- The cells of a stack stand for derivations, the last one first. -/
inductive Stack.Spells (text : List Char) : Stack → List Derivation → Prop
  /-- Nothing was read. -/
  | nil : Spells text [] []
  /-- One more derivation on top. -/
  | cons {c : Cell} {stack : Stack} {d : Derivation} {ds : List Derivation}
      (top : c.Stands text stack ds d) (rest : Spells text stack ds) :
      Spells text (c :: stack) (d :: ds)

/-- The derivation on top closes before the next token, if that is a connective. -/
def ClosesAhead (k : Kind) (ds : List Derivation) : Prop :=
  ∀ c, k = .connective c → ∀ d ∈ ds.head?, ∀ p ∈ d.rightSpine, p.ClosesBefore c.precedence

theorem closesAhead_nil (k : Kind) : ClosesAhead k [] :=
  fun _ _ _ hd ↦ absurd hd (by simp)

/-- A token leaves no operator open. -/
theorem closesAhead_token (k : Kind) (t : Lexeme) (ds : List Derivation) :
    ClosesAhead k (.token t :: ds) := by
  intro c _ d hd p hp
  obtain rfl : Derivation.token t = d := Option.some.inj hd
  exact absurd hp List.not_mem_nil

/-- The tokens that derivations on a stack stand for. -/
def readTokens (ds : List Derivation) : List Lexeme :=
  ds.reverse.flatMap Derivation.tokens

theorem readTokens_cons (d : Derivation) (ds : List Derivation) :
    readTokens (d :: ds) = readTokens ds ++ d.tokens := by
  simp [readTokens]

/-! ### Where phrases start -/

/-- The start of cells is that of the first of them, or of the next token. -/
def startOf (next : Nat) (cells : List Cell) : Nat :=
  match cells with
  | c :: _ => c.start
  | [] => next

/-- A phrase of no token has no position. -/
theorem build_congr {p : Production} (hp : (p.rhs.all (·.nullable)) = true) (text : List Char)
    (start start' : Nat) (ms : List Meaning) :
    build text start p ms = build text start' p ms := by
  have hmem := mem_of_all_nullable p hp
  simp only [List.mem_cons, List.not_mem_nil, or_false] at hmem
  -- each of these productions is for one part at most
  rcases hmem with rfl | rfl | rfl | rfl <;> rcases ms with - | ⟨m, - | ⟨m', ms⟩⟩ <;>
    first | rfl | cases m <;> rfl

section Start

variable {text : List Char} {p : Production} {cells : List Cell} {parts : List Derivation}

/-- What cells mean has valid derivations. -/
theorem valid_of_means (h : List.Forall₂ (Cell.Means text) cells parts) :
    ∀ d ∈ parts, d.Valid := by
  induction h with
  | nil => exact fun d hd ↦ absurd hd List.not_mem_nil
  | cons hcd _ ih => exact List.forall_mem_cons.2 ⟨hcd.valid, ih⟩

/-- What cells mean are the values of derivations. -/
theorem values_of_means (h : List.Forall₂ (Cell.Means text) cells parts) :
    List.Forall₂ (fun d m ↦ d.value text = .ok m) parts (cells.map (·.meaning)) := by
  rw [List.forall₂_map_right_iff]
  exact h.flip.imp fun _ _ hcd ↦ hcd.value

/-- The parts of a phrase start at their first token, if they have one. -/
theorem startOf_eq_offset (h : List.Forall₂ (Cell.Means text) cells parts)
    (hp : parts.map Derivation.symbol = p.rhs) (next : Nat) :
    ∀ t ∈ (parts.flatMap Derivation.tokens).head?, startOf next cells = t.offset := by
  intro t ht
  cases h with
  | nil => exact absurd ht (by simp)
  | @cons c d cs ds hcd hrest =>
    rcases htokens : d.tokens with - | ⟨u, us⟩
    · -- a first part of no token is the only part, so there is no first token
      have hnull := Derivation.nullable_of_tokens_eq_nil hcd.valid htokens
      have hone := rhs_of_nullable_head p (by rw [← hp]; simpa using hnull)
      rw [← hp, List.map_cons, List.length_cons, List.length_map] at hone
      obtain rfl : ds = [] := List.length_eq_zero_iff.1 (by omega)
      simp [htokens] at ht
    · refine hcd.start t ?_
      rw [List.flatMap_cons, htokens] at ht
      rw [htokens]
      exact ht

/-- The parts of a phrase have the same meaning together, whether it starts at its first cell or at
its first token. -/
theorem build_startOf (h : List.Forall₂ (Cell.Means text) cells parts)
    (hp : parts.map Derivation.symbol = p.rhs) (next : Nat) (ms : List Meaning) :
    build text (startOf next cells) p ms =
      build text (Derivation.start (parts.flatMap Derivation.tokens)) p ms := by
  rcases htokens : parts.flatMap Derivation.tokens with - | ⟨t, ts⟩
  · have hall := Derivation.all_nullable_of_flatMap_eq_nil (valid_of_means h) htokens
    rw [hp] at hall
    exact build_congr hall _ _ _ _
  · have ht := startOf_eq_offset h hp next t (by rw [htokens]; rfl)
    rw [ht]
    rfl

/-- What becomes of a stack when the parts on top of it are put together: a phrase on what lies
below them, with the meaning that is built from theirs. -/
theorem Stack.reduce_append (h : List.Forall₂ (Cell.Means text) cells parts)
    (hp : parts.map Derivation.symbol = p.rhs) {below : Stack} {s : State}
    (hs : goto below.state p.lhs = some s) (next : Nat) :
    Stack.reduce text next p (cells.reverse ++ below) =
      match (Derivation.phrase p parts).value text with
      | .ok m => .ok (⟨s, m, startOf next cells⟩ :: below)
      | .error f => .error f.toReadFault := by
  have hlength : cells.reverse.length = p.rhs.length := by
    rw [List.length_reverse, h.length_eq, ← hp, List.length_map]
  have hparts : ((cells.reverse ++ below).take p.rhs.length).reverse = cells := by
    rw [← hlength, List.take_left, List.reverse_reverse]
  have hrest : (cells.reverse ++ below).drop p.rhs.length = below := by
    rw [← hlength, List.drop_left]
  rw [Derivation.value_phrase (values_of_means h), ← build_startOf h hp next]
  unfold Stack.reduce
  simp only [hparts, hrest, hs]
  rw [if_neg (by simp [← hlength])]
  split
  · rename_i hnone
    exact absurd hnone (by simp)
  · rename_i hbuild
    rw [show build text (startOf next cells) p _ = _ from hbuild]
  · rename_i hsome hbuild
    obtain rfl := Option.some.inj hsome
    rw [show build text (startOf next cells) p _ = _ from hbuild]
    rfl

end Start

namespace Stack.Spells

variable {text : List Char} {stack stack' : Stack} {ds : List Derivation} {k : Kind}
  {p : Production} {n : Nat}

theorem eq_nil_of_state_eq_start (h : stack.Spells text ds) (hs : stack.state = .start) :
    stack = [] ∧ ds = [] := by
  cases h with
  | nil => exact ⟨rfl, rfl⟩
  | cons top _ => exact absurd hs (State.ne_start_of_step top.edge)

/-- What is under way in the state of a stack was read: the parts lie on top, and the state below
them has a place for the phrase. -/
theorem exists_parts (h : stack.Spells text ds) (hp : stack.state.holds p n = true) :
    ∃ parts rest, ds = parts.reverse ++ rest ∧ parts.map Derivation.symbol = p.rhs.take n ∧
      List.Forall₂ (Cell.Means text) (stack.take n).reverse parts ∧
      Stack.Spells text (stack.drop n) rest ∧
      ∃ s, goto (Stack.state (stack.drop n)) p.lhs = some s := by
  induction n generalizing stack ds with
  | zero =>
    exact ⟨[], ds, rfl, by simp, by simp, h, Option.isSome_iff_exists.1 hp⟩
  | succ n ih =>
    cases h with
    | nil => exact absurd hp (by simp [State.holds, Stack.state, State.underWay])
    | @cons c stack d ds top rest =>
      obtain ⟨hsymbol, hbelow⟩ := State.holds_of_step top.edge hp
      obtain ⟨parts, rest', rfl, hparts, hmeans, hrest, hgoto⟩ := ih rest hbelow
      refine ⟨parts ++ [d], rest', by simp, ?_, ?_, hrest, hgoto⟩
      · rw [List.map_append, hparts, List.take_add_one, hsymbol]
        rfl
      · rw [List.take_succ_cons, List.reverse_cons]
        exact List.rel_append hmeans (.cons top.toMeans .nil)

/-- The phrase that a production makes of the parts on top of a stack: it is put on what lies below
them, with the meaning that is built from theirs. -/
theorem reduce_eq (h : stack.Spells text ds) (ha : action stack.state k = some (.reduce p))
    (next : Nat) :
    ∃ parts rest s start, ds = parts.reverse ++ rest ∧ parts.map Derivation.symbol = p.rhs ∧
      List.Forall₂ (Cell.Means text) (stack.take p.rhs.length).reverse parts ∧
      Stack.Spells text (stack.drop p.rhs.length) rest ∧
      goto (Stack.state (stack.drop p.rhs.length)) p.lhs = some s ∧
      (∀ t ∈ (parts.flatMap Derivation.tokens).head?, start = t.offset) ∧
      stack.reduce text next p =
        match (Derivation.phrase p parts).value text with
        | .ok m => .ok (⟨s, m, start⟩ :: stack.drop p.rhs.length)
        | .error f => .error f.toReadFault := by
  obtain ⟨parts, rest, hds, hparts, hmeans, hrest, s, hs⟩ :=
    h.exists_parts (State.holds_of_reduce ha)
  rw [List.take_length] at hparts
  refine ⟨parts, rest, s, startOf next (stack.take p.rhs.length).reverse, hds, hparts, hmeans,
    hrest, hs, startOf_eq_offset hmeans hparts next, ?_⟩
  have heq := reduce_append hmeans hparts hs next
  rwa [List.reverse_reverse, List.take_append_drop] at heq

/-- The last operand of an operator lies on top of the stack when the operator is put together. A
connective that makes it binds before the operator, and the operator closes before the next
token. -/
theorem exists_operand (h : stack.Spells text ds) (ha : action stack.state k = some (.reduce p))
    {precedence : Precedence} (hp : p.precedence? = some precedence) :
    ∃ d, ds.head? = some d ∧ (∀ c ∈ d.connective?, c.precedence.OpensInside precedence) ∧
      ∀ c, k = .connective c → precedence.ClosesBefore c.precedence := by
  obtain ⟨slot, hslot, ho, hchoose⟩ := State.closes_of_reduce ha hp
  cases h with
  | nil => exact absurd hslot (by simp [Stack.state])
  | @cons c stack d ds top _ =>
    exact ⟨d, rfl, top.opens slot hslot _ ho,
      fun c hc ↦ Precedence.choose_eq_reduce_iff.1 (hchoose c hc)⟩

/-- The operand of an operator is the last of its parts. With the operator itself, it leaves open
only what closes before the next token. -/
theorem exists_last {parts rest : List Derivation} (h : stack.Spells text (parts.reverse ++ rest))
    (hk : ClosesAhead k (parts.reverse ++ rest))
    (ha : action stack.state k = some (.reduce p))
    (hparts : parts.map Derivation.symbol = p.rhs) {precedence : Precedence}
    (hp : p.precedence? = some precedence) :
    ∃ init d, parts = init ++ [d] ∧ (∀ c ∈ d.connective?, c.precedence.OpensInside precedence) ∧
      ∀ c, k = .connective c → ∀ q ∈ precedence :: d.rightSpine,
        q.ClosesBefore c.precedence := by
  obtain ⟨d, hd, hopens, hcloses⟩ := h.exists_operand ha hp
  rcases List.eq_nil_or_concat parts with rfl | ⟨init, d', rfl⟩
  · -- no operator is made of no parts
    rw [List.map_nil] at hparts
    exact absurd hp (by cases p <;> simp [Production.rhs, Production.precedence?] at hparts ⊢)
  · obtain rfl : d' = d := by simpa using hd
    refine ⟨init, d', List.concat_eq_append, hopens, fun c hc ↦ ?_⟩
    exact List.forall_mem_cons.2 ⟨hcloses c hc, hk c hc d' (by simp)⟩

/-- When a connective is put together, its left operand closes before it, and the place that the
left operand stands in is one that the connective opens inside. -/
theorem left_operand {c : Connective} {left sign right : Derivation}
    (h : stack.Spells text (right :: sign :: left :: ds))
    (ha : action stack.state k = some (.reduce (.join c))) (hleft : left.symbol = .phrase .expr) :
    (∀ p ∈ left.rightSpine, p.ClosesBefore c.precedence) ∧
      ∀ slot, goto (Stack.state (stack.drop 3)) .expr = some (.after slot) →
        ∀ o ∈ slot.operation?, c.precedence.OpensInside o.2 := by
  obtain ⟨slot, hslot, ho, -⟩ := State.closes_of_reduce ha rfl
  obtain rfl : slot = .right c := by
    cases slot <;> simp_all [Slot.operation?]
  cases h with
  | @cons c₃ _ _ _ top h =>
    cases h with
    | @cons c₂ _ _ _ middle h =>
      cases h with
      | @cons c₁ below _ _ bottom _ =>
        have h₃ := top.edge
        rw [show c₃.state = .after (.right c) from hslot] at h₃
        have h₂ : c₂.state = .before (.right c) := (State.eq_of_step_after h₃).1
        refine ⟨middle.closes c h₂ left rfl, fun slot hgoto o ho ↦ ?_⟩
        have h₁ : c₁.state = .after slot := by
          have hedge := bottom.edge
          rw [hleft] at hedge
          exact Option.some.inj (hedge.symm.trans hgoto)
        have hedge := middle.edge
        rw [h₂] at hedge
        exact Precedence.choose_eq_shift_iff.1 ((State.eq_of_step_right hedge).2 slot h₁ o ho)

/-- The left operand of a connective is the first of its three parts. -/
theorem exists_left {parts rest : List Derivation} {c : Connective} {s : State}
    (h : stack.Spells text (parts.reverse ++ rest))
    (ha : action stack.state k = some (.reduce (.join c)))
    (hparts : parts.map Derivation.symbol = (Production.join c).rhs)
    (hs : goto (Stack.state (stack.drop 3)) .expr = some s) :
    ∃ left sign right, parts = [left, sign, right] ∧
      (∀ q ∈ left.rightSpine, q.ClosesBefore c.precedence) ∧
      ∀ slot, s = .after slot → ∀ o ∈ slot.operation?, c.precedence.OpensInside o.2 := by
  obtain ⟨left, t, right, rfl, -, hleft, -⟩ := Derivation.exists_join_parts hparts
  obtain ⟨hbinds, hopens⟩ := h.left_operand ha hleft
  refine ⟨left, .token t, right, rfl, hbinds, ?_⟩
  rintro slot rfl
  exact hopens slot hs

/-- Putting a phrase together makes one valid derivation of those of its parts, and the operators
that it leaves open close before the next token. -/
theorem of_reduce (h : stack.Spells text ds) (hk : ClosesAhead k ds)
    (ha : action stack.state k = some (.reduce p)) {next : Nat}
    (hr : stack.reduce text next p = .ok stack') :
    ∃ ds', stack'.Spells text ds' ∧ ClosesAhead k ds' ∧ readTokens ds' = readTokens ds := by
  obtain ⟨parts, rest, s, start, rfl, hparts, hmeans, hrest, hs, hstart, heq⟩ := h.reduce_eq ha next
  rw [hr] at heq
  rcases hvalue : (Derivation.phrase p parts).value text with f | m
  · rw [hvalue] at heq
    exact absurd heq (by simp)
  rw [hvalue] at heq
  obtain rfl := Except.ok.inj heq
  have hsound : (Derivation.phrase p parts).Sound := by
    refine ⟨hparts, ?_, ?_⟩
    · -- only a connective has a left operand
      cases p <;> try trivial
      obtain ⟨left, sign, right, rfl, hbinds, -⟩ := h.exists_left ha hparts hs
      exact hbinds
    · intro precedence hp operand hoperand
      obtain ⟨init, d, rfl, hopens, -⟩ := h.exists_last hk ha hparts hp
      obtain rfl : d = operand := by simpa using hoperand
      exact hopens
  refine ⟨.phrase p parts :: rest, .cons ⟨⟨?_, hvalue, ?_⟩, hs, ?_, ?_⟩ hrest, ?_, ?_⟩
  · exact Derivation.valid_phrase_iff.2 ⟨hsound, valid_of_means hmeans⟩
  · rw [Derivation.tokens_phrase]
    exact hstart
  · intro slot hslot o ho c hc
    obtain rfl := Derivation.connective?_phrase_eq_some_iff.1 hc
    obtain ⟨-, -, -, -, -, hopens⟩ := h.exists_left ha hparts hs
    exact hopens slot hslot o ho
  · -- a connective is a token, and so no phrase leads to the state behind it
    rintro c rfl
    exact absurd (State.eq_of_step_right (x := .phrase p.lhs) hs).1 (by simp)
  · intro c hc d hd
    obtain rfl : Derivation.phrase p parts = d := Option.some.inj hd
    rcases hp : p.precedence? with - | precedence
    · rw [Derivation.rightSpine_phrase_of_none hp]
      exact fun q hq ↦ absurd hq List.not_mem_nil
    · obtain ⟨init, d, rfl, -, hcloses⟩ := h.exists_last hk ha hparts hp
      rw [Derivation.rightSpine_phrase_append hp]
      exact hcloses c hc
  · simp [readTokens]

/-- Putting phrases together keeps the tokens that a stack spells. -/
theorem of_reduces {t : Lexeme} (hs : stack.Reduces text t stack') (h : stack.Spells text ds)
    (hk : ClosesAhead t.kind ds) :
    ∃ ds', stack'.Spells text ds' ∧ ClosesAhead t.kind ds' ∧ readTokens ds' = readTokens ds := by
  induction hs generalizing ds with
  | refl => exact ⟨ds, h, hk, rfl⟩
  | step ha hr _ ih =>
    obtain ⟨ds₁, h₁, hk₁, htokens₁⟩ := h.of_reduce hk ha hr
    obtain ⟨ds₂, h₂, hk₂, htokens₂⟩ := ih h₁ hk₁
    exact ⟨ds₂, h₂, hk₂, htokens₂.trans htokens₁⟩

/-- A token that is taken is a derivation of its own. -/
theorem of_shift {t : Lexeme} {s : State} (h : stack.Spells text ds) (hk : ClosesAhead t.kind ds)
    (ha : action stack.state t.kind = some (.shift s)) :
    Stack.Spells text (⟨s, .token t, t.offset⟩ :: stack) (.token t :: ds) := by
  have hedge : stack.state.step (.token t.kind) = some s := State.step_token_eq_some_iff.2 ha
  refine .cons ⟨⟨Derivation.valid_token t, rfl, ?_⟩, hedge, ?_, ?_⟩ h
  · intro u hu
    rw [← Option.some.inj hu]
  · exact fun _ _ _ _ c hc ↦ absurd hc (by simp [Derivation.connective?])
  · rintro c rfl
    have hc := GrammarSymbol.token.inj (State.eq_of_step_right hedge).1
    exact hk c hc

/-- A complete source is spelled by one derivation of a program. -/
theorem of_accept {c : Cell} (h : Stack.Spells text (c :: stack) ds)
    (ha : action c.state k = some .accept) :
    ∃ d, ds = [d] ∧ d.symbol = .phrase .program ∧ d.Valid ∧ d.value text = .ok c.meaning := by
  cases h with
  | @cons _ _ d ds top rest =>
    have hedge := top.edge
    rw [(State.eq_of_accept ha).1] at hedge
    obtain ⟨hstart, hsymbol⟩ := State.eq_of_step_complete hedge
    obtain ⟨-, rfl⟩ := rest.eq_nil_of_state_eq_start hstart
    exact ⟨d, rfl, hsymbol, top.valid, top.value⟩

end Stack.Spells

/-- What is read off tokens is the value of a valid derivation of those tokens. -/
theorem exists_derivation_of_readProgram {text : List Char} {deliveries : List Delivery}
    {stack : Stack} {ds : List Derivation} {b : Block} (h : stack.Spells text ds)
    (hk : ∀ t ∈ ahead text deliveries, ClosesAhead t.kind ds)
    (hr : readProgram text deliveries stack = .ok b) :
    ∃ (ts : List Lexeme) (d : Derivation), deliveries = ts.map .ok ∧
      d.tokens = readTokens ds ++ ts ∧ d.symbol = .phrase .program ∧ d.Valid ∧
        d.value text = .ok (.block b) := by
  induction deliveries generalizing stack ds with
  | nil =>
    obtain ⟨stack', hs, hend⟩ := stack.exists_rests text (eofLexeme text)
    obtain ⟨ds', h', -, htokens⟩ := h.of_reduces hs (hk _ rfl)
    rw [readProgram, Stack.feed_eq] at hr
    generalize stack.settled text (eofLexeme text) = outcome at hr hend
    cases hend with
    | complete ha heq hb =>
      subst heq
      obtain rfl := Except.ok.inj hr
      obtain ⟨d, rfl, hsymbol, hvalid, hvalue⟩ := h'.of_accept ha
      refine ⟨[], d, rfl, ?_, hsymbol, hvalid, hb ▸ hvalue⟩
      rw [← htokens, List.append_nil]
      simp [readTokens]
    | _ => exact absurd hr (by simp)
  | cons delivery rest ih =>
    rcases delivery with f | t
    · exact absurd hr (by simp [readProgram])
    obtain ⟨stack', hs, hend⟩ := stack.exists_rests text t
    obtain ⟨ds', h', hk', htokens⟩ := h.of_reduces hs (hk t rfl)
    rw [readProgram, Stack.feed_eq] at hr
    generalize stack.settled text t = outcome at hr hend
    cases hend with
    | ready ha =>
      obtain ⟨ts, d, rfl, hd, hsymbol, hvalid, hvalue⟩ :=
        ih (h'.of_shift hk' ha) (fun u _ ↦ closesAhead_token u.kind t ds') hr
      refine ⟨t :: ts, d, rfl, ?_, hsymbol, hvalid, hvalue⟩
      rw [hd, readTokens_cons, htokens]
      simp [Derivation.tokens]
    | _ => exact absurd hr (by simp)

end Sangria
