import Sangria.Proofs.Parse.Expected
import Sangria.Proofs.Token.Closing

/-!
# Sources that end too soon

Where a parse fails with nothing written left to read, it says where the source ends. It also says
that the source ends too soon, but for one case: where a block is open, and the next one is to begin
behind a colon and the end of its line, the end of the open block is what is refused
(`reports_end`).

## What each part rests on

* Which tokens there are still to come is known from the order of their kinds
  (`Delivers.of_unwritten`).
* The end of a block is refused in two places only: where a block is to begin, and behind all
  statements of a program. All states that a reader can come to behind a statement, with the end of
  a block in sight, are of one kind (`State.endsStatement`), and a check of the table says so.
* Behind all statements no block is open, because a derivation has as many ends of blocks as starts
  (`Derivation.count_tokens`).
-/

namespace Sangria

/-! ### Blocks in derivations -/

theorem Production.count_rhs : ∀ p : Production,
    p.rhs.count (.token .dedent) = p.rhs.count (.token .indent) := by
  decide +kernel

/-- A derivation of a phrase has as many ends of blocks as starts of them. -/
theorem Derivation.count_tokens {d : Derivation} (h : d.Valid) :
    (d.tokens.map (·.kind)).count .dedent + [d.symbol].count (.token .indent) =
      (d.tokens.map (·.kind)).count .indent + [d.symbol].count (.token .dedent) := by
  induction d with
  | token t =>
    have count (k : Kind) : [GrammarSymbol.token t.kind].count (.token k) = [t.kind].count k := by
      rw [List.count_singleton, List.count_singleton]
      simp
    rw [tokens, symbol, List.map_singleton, count, count, Nat.add_comm]
  | phrase p parts ih =>
    obtain ⟨hsound, hparts⟩ := valid_phrase_iff.1 h
    have hsum (ds : List Derivation) (hds : ∀ d ∈ ds, d ∈ parts) :
        ((ds.flatMap tokens).map (·.kind)).count .dedent +
            (ds.map symbol).count (.token .indent) =
          ((ds.flatMap tokens).map (·.kind)).count .indent +
            (ds.map symbol).count (.token .dedent) := by
      induction ds with
      | nil => rfl
      | cons d rest ihrest =>
        obtain ⟨hd, hrest⟩ := List.forall_mem_cons.1 hds
        have hfirst := ih d hd (hparts d hd)
        have hothers := ihrest hrest
        rw [List.flatMap_cons, List.map_append, List.count_append, List.count_append, List.map_cons,
          ← List.singleton_append, List.count_append, List.count_append]
        omega
    have hall := hsum parts fun _ hd ↦ hd
    rw [show parts.map symbol = p.rhs from hsound.grammar, Production.count_rhs p] at hall
    rw [tokens_phrase, Nat.add_right_cancel hall]
    rfl

/-! ### The table around the ends of lines and blocks -/

namespace State

/-- The states behind a statement, or behind the end of one, with nothing of another one read. -/
def endsStatement : State → Bool
  | simpleEnd | blockEnd | defBlock | ifBlock | elifBlock | elseBlock | noElse | ifOtherwise
  | elifOtherwise | definition | branch | compound | firstStatement | nextStatement | statements
  | blockStatements => true
  | _ => false

/-- The states behind the colon before a block. -/
def endsHeader : State → Bool
  | defColon | ifColon | elifColon | elseColon => true
  | _ => false

/-- How the states around the ends of lines and blocks are reached. -/
def reachedBy (q : State) (x : GrammarSymbol) (s : State) : Bool :=
  match s with
  | statements => q = start && x = .phrase .statements
  | blockLine => q.endsHeader && x = .token .newline
  | s =>
    if s.endsHeader then x = .token .colon
    else s.endsStatement || (x ≠ .token .newline && x ≠ .token .dedent)

theorem reachedBy_of_step : ∀ (q : State) (x : GrammarSymbol),
    (q.step x).all (fun s ↦ reachedBy q x s) = true := by
  decide +kernel

/-- What the table has for the end of a block behind a statement. It is refused behind all
statements of a program only; and the phrase that is put together before it, on parts that were read
from a state on, leads behind a statement again. -/
def endsBlock (s q : State) : Bool :=
  match action s .dedent with
  | none => s = statements
  | some (.reduce p) => (p.rhs = [] && q ≠ s) || (goto q p.lhs).all endsStatement
  | some _ => true

theorem endsBlock_of_endsStatement :
    ∀ s q : State, s.endsStatement = true → s.endsBlock q = true := by
  decide +kernel

theorem reachedBy_of_eq {q s : State} {x : GrammarSymbol} (h : q.step x = some s) :
    reachedBy q x s = true := by
  have hall := reachedBy_of_step q x
  rwa [h, Option.all_some] at hall

/-- All statements of a program are read at its start. -/
theorem eq_of_step_statements {q : State} {x : GrammarSymbol} (h : q.step x = some .statements) :
    q = .start ∧ x = .phrase .statements := by
  simpa [reachedBy] using reachedBy_of_eq h

/-- The colon before a block is a token. -/
theorem eq_of_step_endsHeader {q s : State} {x : GrammarSymbol} (h : q.step x = some s)
    (hs : s.endsHeader = true) : x = .token .colon := by
  have hreached := reachedBy_of_eq h
  cases s <;> simp_all [reachedBy, endsHeader]

/-- The end of a line or of a block leads behind a statement, or behind the line before a block. -/
theorem cases_of_step {q s : State} {k : Kind} (h : q.step (.token k) = some s)
    (hk : k = .newline ∨ k = .dedent) :
    s.endsStatement = true ∨ k = .newline ∧ q.endsHeader = true := by
  have hreached := reachedBy_of_eq h
  unfold reachedBy at hreached
  split at hreached
  · exact .inl rfl
  · simp only [Bool.and_eq_true, decide_eq_true_eq, GrammarSymbol.token.injEq] at hreached
    exact .inr hreached.symm
  · split at hreached
    · rcases hk with rfl | rfl <;> exact absurd hreached (by decide)
    · rcases hk with rfl | rfl <;> exact .inl (by simpa using hreached)

end State

/-! ### Where the end of a block is refused -/

namespace Stack

variable {text : List Char} {stack stack' : Stack} {t : Lexeme} {ts : List Lexeme}
  {ds : List Derivation}

/-- A reader that is behind a statement, and puts phrases together before the end of a block, stays
behind a statement. -/
theorem Reduces.endsStatement (h : stack.Reduces text t stack') (ht : t.kind = .dedent)
    (hs : stack.state.endsStatement = true) : stack'.state.endsStatement = true := by
  induction h with
  | refl => exact hs
  | @step stack next _ p ha hr _ ih =>
    obtain ⟨-, s, m, start, hgoto, rfl⟩ := exists_of_reduce_eq_ok hr
    refine ih ?_
    have hends :=
      State.endsBlock_of_endsStatement _ (Stack.state (stack.drop p.rhs.length)) hs
    rw [ht] at ha
    rw [State.endsBlock, ha] at hends
    simp only [hgoto, Option.all_some, Bool.or_eq_true, Bool.and_eq_true, decide_eq_true_eq]
      at hends
    refine hends.resolve_left fun ⟨hempty, hne⟩ ↦ hne ?_
    rw [hempty, List.length_nil, List.drop_zero]

/-- The tokens that were taken before the last one were taken to a stack that takes that. -/
theorem Takes.exists_feed (h : stack.Takes text (ts ++ [t]) stack') :
    ∃ mid, stack.Takes text ts mid ∧ mid.feed text t = .ok (.taken stack') := by
  induction ts generalizing stack with
  | nil =>
    cases h with
    | cons hfed hrest =>
      cases hrest
      exact ⟨stack, .nil stack, hfed⟩
  | cons u us ih =>
    cases h with
    | cons hfed hrest =>
      obtain ⟨mid, htakes, hlast⟩ := ih hrest
      exact ⟨mid, .cons hfed htakes, hlast⟩

/-- The derivations on a reader that has taken tokens, and puts phrases together then, are of those
tokens. -/
theorem Takes.exists_spells (h : Stack.Takes text [] ts stack) {next : Stack}
    (hr : stack.Reduces text t next) :
    ∃ ds, next.Spells text ds ∧ readTokens ds = ts := by
  obtain ⟨ds, hspells, hahead, htokens⟩ := Stack.Spells.of_takes h .nil closesAhead_nil
  obtain ⟨ds', hspells', -, htokens'⟩ := hspells.of_reduces hr (hahead t.kind)
  exact ⟨ds', hspells', htokens'.trans htokens⟩

/-- Behind the colon before a block, the colon was read last. -/
theorem Spells.exists_colon (h : stack.Spells text ds) (hs : stack.state.endsHeader = true) :
    ∃ front c, readTokens ds = front ++ [c] ∧ c.kind = .colon := by
  cases h with
  | nil => exact absurd hs (by decide)
  | @cons c stack d ds top rest =>
    obtain ⟨u, rfl, hu⟩ := Derivation.exists_token (State.eq_of_step_endsHeader top.edge hs)
    exact ⟨readTokens ds, u, readTokens_cons _ _, hu⟩

/-- Behind all statements of a program, no block is open. -/
theorem Spells.count_tokens (h : stack.Spells text ds) (hs : stack.state = .statements) :
    ((readTokens ds).map (·.kind)).count .dedent =
      ((readTokens ds).map (·.kind)).count .indent := by
  cases h with
  | nil => exact absurd hs (by decide)
  | @cons c stack d ds top rest =>
    have hedge := top.edge
    rw [show c.state = .statements from hs] at hedge
    obtain ⟨hstart, hsymbol⟩ := State.eq_of_step_statements hedge
    obtain ⟨-, rfl⟩ := rest.eq_nil_of_state_eq_start hstart
    have hcount := Derivation.count_tokens top.valid
    rw [hsymbol] at hcount
    rw [readTokens_cons]
    exact hcount

end Stack

/-- A block is open behind tokens. -/
def BlockOpen (ts : List Lexeme) : Prop :=
  (ts.map (·.kind)).count .dedent < (ts.map (·.kind)).count .indent

/-- A block is to begin behind tokens: they end with a colon and the end of its line. -/
def BlockBegins (ts : List Lexeme) : Prop :=
  ∃ front c n, ts = front ++ [c, n] ∧ c.kind = .colon ∧ n.kind = .newline

/-- Where the end of an open block is refused, another block is to begin. -/
theorem Stack.Takes.blockBegins {text : List Char} {before : Stack} {t u : Lexeme}
    {ts : List Lexeme} (h : Stack.Takes text [] (ts ++ [u]) before)
    (hrefused : before.Refuses text t) (ht : t.kind = .dedent)
    (hu : u.kind = .newline ∨ u.kind = .dedent) (hopen : BlockOpen (ts ++ [u])) :
    BlockBegins (ts ++ [u]) := by
  obtain ⟨mid, htakes, hfeed⟩ := h.exists_feed
  obtain ⟨below, s, hbelow, ha, rfl⟩ := exists_of_feed hfeed
  rcases State.cases_of_step (State.step_token_eq_some_iff.2 ha) hu with hends | ⟨hline, hheader⟩
  · -- behind all statements, as many blocks were ended as were begun
    obtain ⟨q, hq⟩ := hrefused
    obtain ⟨noticed, hnoticed, hnone, -⟩ := exists_of_refused hq
    have hnoticed' := hnoticed.endsStatement ht hends
    have hstate : noticed.state = .statements := by
      have hblock := State.endsBlock_of_endsStatement _ noticed.state hnoticed'
      rw [ht] at hnone
      rw [State.endsBlock, hnone] at hblock
      exact of_decide_eq_true hblock
    obtain ⟨ds, hspells, htokens⟩ := h.exists_spells hnoticed
    have hcount := hspells.count_tokens hstate
    rw [htokens] at hcount
    exact absurd hcount (Nat.ne_of_lt hopen)
  · obtain ⟨ds, hspells, htokens⟩ := htakes.exists_spells hbelow
    obtain ⟨front, c, hfront, hc⟩ := hspells.exists_colon hheader
    refine ⟨front, c, u, ?_, hc, hline⟩
    rw [← htokens, hfront, List.append_assoc, List.singleton_append]

/-! ### What is reported where nothing written is left -/

/-- A reader has taken the first tokens of a source, and refuses the next one, or the end of the
source. -/
structure RefusesBehind (source : String) (ts : List Lexeme) (rest : List Delivery) (t : Lexeme) :
    Prop where
  /-- These are the tokens, and what is still delivered. -/
  delivered : deliveries source.toList (.ofText source.toList) .initial = ts.map .ok ++ rest
  /-- This is the next one. -/
  next : ahead source.toList rest = some t
  /-- It is refused behind the others. -/
  refused : ∃ before, Stack.Takes source.toList [] ts before ∧ before.Refuses source.toList t

/-- Nothing written is left: only tokens that are not written are still delivered. -/
def NothingWritten (rest : List Delivery) : Prop :=
  ∃ us : List Lexeme, rest = us.map .ok ∧ ∀ u ∈ us, u.isWritten = false

/-- The end of the source, and a line end that is not written, are refused as an early end. -/
theorem message_refusal_of_early {text : List Char} {t : Lexeme} (s : State)
    (h : t.kind = .eof ∨ t.kind = .newline ∧ t.text = "") :
    (refusal text s t).message = "fin de entrada inesperado" := by
  rw [refusal]
  exact if_pos h

/-- The end of a block is refused as what it is. -/
theorem message_refusal_of_dedent {text : List Char} {t : Lexeme} (s : State)
    (h : t.kind = .dedent) : (refusal text s t).message = "token inesperado fin de bloque" := by
  rw [refusal, h]
  rfl

/-- What is reported where nothing written is left: the end of the source, as an early end unless a
block is open and another one is to begin. -/
theorem RefusesBehind.reports {source : String} {d : Diagnostic} {ts : List Lexeme}
    {rest : List Delivery} {t : Lexeme} (h : RefusesBehind source ts rest t)
    (hparse : parse source = .error (.reported d)) (hnothing : NothingWritten rest) :
    d.phase = .syntactic ∧ d.position = some (.ofEnd source.toList) ∧
      (¬ (BlockOpen ts ∧ BlockBegins ts) → d.message = "fin de entrada inesperado") ∧
      (BlockOpen ts ∧ BlockBegins ts →
        t.kind = .dedent ∧ d.message = "token inesperado fin de bloque") := by
  obtain ⟨hds, hahead, before, htakes, hrefuses⟩ := h
  have hrefused := hrefuses
  obtain ⟨s, hs⟩ := hrefused
  obtain rfl : d = refusal source.toList s t :=
    ParseRefuses.eq_refusal ⟨hparse, ⟨ts, rest, hds, hahead, htakes⟩, hrefuses⟩ hs
  obtain ⟨us, rfl, hus⟩ := hnothing
  rw [← List.map_append] at hds
  have hdelivers := deliveries_eq_iff.1 hds
  cases us with
  | nil =>
    obtain rfl := Option.some.inj hahead
    rw [List.append_nil] at hdelivers
    have hclosed : ¬ BlockOpen ts := by
      have hwhole := hdelivers.nests.whole
      simp only [Layout.initial, List.length_nil, Nat.add_zero] at hwhole
      exact Nat.not_lt.2 (Nat.le_of_eq hwhole.symm)
    exact ⟨rfl, rfl, fun _ ↦ message_refusal_of_early s (.inl rfl),
      fun hopen ↦ absurd hopen.1 hclosed⟩
  | cons u us =>
    obtain rfl := Option.some.inj hahead
    obtain ⟨hoffset, htext, -⟩ := hdelivers.eq_of_unwritten rfl hus u List.mem_cons_self
    have hposition : (refusal source.toList s u).position = some (.ofEnd source.toList) := by
      rw [refusal, hoffset]
      rfl
    refine ⟨rfl, hposition, ?_⟩
    rcases hdelivers.of_unwritten hus with ⟨hu, hword⟩ | ⟨hu, hopen, front, v, rfl, hv⟩
    · refine ⟨fun _ ↦ message_refusal_of_early s (.inr ⟨hu, htext⟩), fun hboth ↦ ?_⟩
      -- behind the end of a line there is no other one
      obtain ⟨-, front, c, n, rfl, -, hn⟩ := hboth
      have hisWord := hword (front ++ [c]) n (by simp)
      rw [hn] at hisWord
      exact absurd hisWord (by decide)
    · have hbegins := htakes.blockBegins hrefuses hu hv hopen
      exact ⟨fun hnot ↦ absurd ⟨hopen, hbegins⟩ hnot,
        fun _ ↦ ⟨hu, message_refusal_of_dedent s hu⟩⟩

/-- A parse that reports a failure of its own refuses a token, or the end of the source. If nothing
written is left there, it reports the end of the source, and that the source ends too soon, unless a
block is open and another one is to begin behind a colon and the end of its line; there the first of
the ends of blocks is reported. -/
theorem reports_end :
    (∀ source d, parse source = .error (.reported d) → d.phase = .syntactic →
      ∃ ts rest t, RefusesBehind source ts rest t) ∧
    ∀ source d ts rest t, parse source = .error (.reported d) → RefusesBehind source ts rest t →
      NothingWritten rest →
        d.phase = .syntactic ∧ d.position = some (.ofEnd source.toList) ∧
        (¬ (BlockOpen ts ∧ BlockBegins ts) → d.message = "fin de entrada inesperado") ∧
        (BlockOpen ts ∧ BlockBegins ts →
          t.kind = .dedent ∧ d.message = "token inesperado fin de bloque") := by
  constructor
  · intro source d h hd
    rw [parse_eq_readProgram] at h
    obtain ⟨ts, t, rest, before, s, hds, hahead, htakes, hs, -⟩ :=
      exists_refused phase_of_mem_deliveries hd h
    exact ⟨ts, rest, t, hds, hahead, before, htakes, s, hs⟩
  · intro source d ts rest t hparse h hnothing
    exact h.reports hparse hnothing

/-- A source that ends in an open block, where another one is to begin, is refused at its end, and
is not reported to end too soon. -/
theorem not_reports_early_end :
    ∃ d ts rest t, parse "if x:\n    if y:\n" = .error (.reported d) ∧ d.phase = .syntactic ∧
      RefusesBehind "if x:\n    if y:\n" ts rest t ∧ NothingWritten rest ∧
      d.message ≠ "fin de entrada inesperado" := by
  exact ⟨refusal "if x:\n    if y:\n".toList .blockLine ⟨.dedent, "", 3, 16⟩,
    [⟨.ifWord, "if", 1, 0⟩, ⟨.name, "x", 1, 3⟩, ⟨.colon, ":", 1, 4⟩, ⟨.newline, "\n", 1, 5⟩,
      ⟨.indent, "", 2, 10⟩, ⟨.ifWord, "if", 2, 10⟩, ⟨.name, "y", 2, 13⟩, ⟨.colon, ":", 2, 14⟩,
      ⟨.newline, "\n", 2, 15⟩], [.ok ⟨.dedent, "", 3, 16⟩], ⟨.dedent, "", 3, 16⟩, by rfl, rfl,
    ⟨by rfl, by rfl, _, .cons rfl (.cons rfl (.cons rfl (.cons rfl (.cons rfl (.cons rfl (.cons rfl
      (.cons rfl (.cons rfl (.nil _))))))))), .blockLine, by rfl⟩,
    ⟨[⟨.dedent, "", 3, 16⟩], rfl, by decide⟩, by decide⟩

/-- Outside of blocks, a source that ends where a block is to begin is reported to end too soon. -/
theorem reports_end_header :
    ∃ d ts t, parse "if x:" = .error (.reported d) ∧ RefusesBehind "if x:" ts [] t ∧
      NothingWritten [] ∧ BlockBegins ts ∧ ¬ BlockOpen ts ∧ d.position = some ⟨1, 6⟩ ∧
      d.message = "fin de entrada inesperado" := by
  let d := refusal "if x:".toList .blockLine (eofLexeme "if x:".toList)
  let ts : List Lexeme :=
    [⟨.ifWord, "if", 1, 0⟩, ⟨.name, "x", 1, 3⟩, ⟨.colon, ":", 1, 4⟩, ⟨.newline, "", 1, 5⟩]
  have hparse : parse "if x:" = .error (.reported d) := by rfl
  have hrefuses : RefusesBehind "if x:" ts [] (eofLexeme "if x:".toList) :=
    ⟨by rfl, by rfl, _, .cons rfl (.cons rfl (.cons rfl (.cons rfl (.nil _)))), .blockLine, by rfl⟩
  have hnothing : NothingWritten [] := ⟨[], rfl, List.forall_mem_nil _⟩
  have hclosed : ¬ BlockOpen ts := by unfold BlockOpen; decide
  obtain ⟨-, hposition, hearly, -⟩ := reports_end.2 _ d ts [] _ hparse hrefuses hnothing
  exact ⟨d, ts, _, hparse, hrefuses, hnothing, ⟨[_, _], _, _, rfl, rfl, rfl⟩, hclosed, hposition,
    hearly fun h ↦ hclosed h.1⟩

end Sangria
