import Sangria.Proofs.Grammar.Enumeration
import Sangria.Proofs.Grammar.Precedence

/-!
# What the states of the table stand for

A state is reached by reading symbols one after the other (`State.step`). It stands for the
productions that may be under way there, each with how many of its parts have been read
(`State.underWay`). Two checks of the table make that reading of the states right.

* `State.holds_of_step`: whatever is under way behind a symbol was under way before it, with that
  symbol as its next part. So a state knows the last symbols that were read, however it was reached.
* `State.holds_of_reduce`: a production is put together only where all of its parts have been read.

Both are statements over all entries of the table, settled by evaluation. So are the statements on
how the states of expressions are reached (`State.enteredBy_of_step`): they say where precedence was
looked at on the way to a state.

## How often phrases can be put together

`State.rank` bounds what can be put together before the next token is taken. Putting together two
parts or more makes the stack shorter, and a phrase of one part or none lowers the rank
(`rank_lt_of_reduce`), so `8 * height + rank` goes down with every phrase.
-/

namespace Sangria

/-- The state behind a symbol that was read in a state. -/
def State.step (s : State) : GrammarSymbol → Option State
  | .token k =>
    match action s k with
    | some (.shift s) => some s
    | _ => none
  | .phrase n => goto s n

/-! ### What is under way -/

/-- The productions of connectives, behind their left sides. -/
def joinsUnderWay : List (Production × Nat) :=
  Connective.all.map fun c ↦ (.join c, 1)

/-- The production that wants an expression in a slot, and how many of its parts stand before it. -/
def Slot.production : Slot → Production × Nat
  | .assigned => (.assignment, 2)
  | .condition => (.branch, 1)
  | .furtherCondition => (.elif, 1)
  | .parenthesis => (.parenthesized, 1)
  | .firstArg => (.call, 2)
  | .nextArg => (.nextArg, 2)
  | .right c => (.join c, 2)
  | .negated => (.negation, 1)
  | .signed s => (.signed s, 1)

/-- What is under way behind an expression in a slot. The first argument of a call is not yet a part
of the call: it begins the arguments. -/
def Slot.underWay : Slot → List (Production × Nat)
  | .firstArg => (.firstArg, 1) :: joinsUnderWay
  | s => (s.production.1, s.production.2 + 1) :: joinsUnderWay

/-- The productions that may be under way in a state, with how many of their parts were read, at
least one. -/
def State.underWay : State → List (Production × Nat)
  | .start => []
  | .statements => [(.program, 1), (.nextStatement, 1)]
  | .complete => []
  | .firstStatement => [(.firstStatement, 1)]
  | .nextStatement => [(.nextStatement, 2)]
  | .simple => [(.simple, 1)]
  | .simpleEnd => [(.simple, 2)]
  | .compound => [(.compound, 1)]
  | .assignment => [(.simpleAssignment, 1)]
  | .bare => [(.simpleBare, 1)]
  | .definition => [(.compoundDefinition, 1)]
  | .branch => [(.compoundBranch, 1)]
  | .leadingName => [(.assignment, 1), (.nameAtom, 1), (.call, 1)]
  | .mark b => [(.mark b, 1)]
  | .defWord => [(.definition, 1)]
  | .defName => [(.definition, 2)]
  | .defOpen => [(.definition, 3)]
  | .firstParam => [(.firstParam, 1)]
  | .params => [(.someParams, 1), (.nextParam, 1)]
  | .noParams => [(.noParams, 1)]
  | .paramComma => [(.nextParam, 2)]
  | .nextParam => [(.nextParam, 3)]
  | .paramList => [(.definition, 4)]
  | .defClose => [(.definition, 5)]
  | .defColon => [(.definition, 6)]
  | .defBlock => [(.definition, 7)]
  | .ifColon => [(.branch, 3)]
  | .ifBlock => [(.branch, 4)]
  | .elifColon => [(.elif, 3)]
  | .elifBlock => [(.elif, 4)]
  | .elseWord => [(.otherwise, 1)]
  | .elseColon => [(.otherwise, 2)]
  | .elseBlock => [(.otherwise, 3)]
  | .noElse => [(.noOtherwise, 1)]
  | .ifOtherwise => [(.branch, 5)]
  | .elifOtherwise => [(.elif, 5)]
  | .blockLine => [(.block, 1)]
  | .blockStart => [(.block, 2)]
  | .blockStatements => [(.block, 3), (.nextStatement, 1)]
  | .blockEnd => [(.block, 4)]
  | .before s => [s.production]
  | .after s => s.underWay
  | .bareExpr => (.bare, 1) :: joinsUnderWay
  | .name => [(.nameAtom, 1), (.call, 1)]
  | .parenClose => [(.parenthesized, 3)]
  | .literal l => [(.literal l, 1)]
  | .literalAtom => [(.literalAtom, 1)]
  | .atom => [(.atom, 1)]
  | .callAtom => [(.callAtom, 1)]
  | .args => [(.someArgs, 1), (.nextArg, 1)]
  | .noArgs => [(.noArgs, 1)]
  | .argList => [(.call, 3)]
  | .callClose => [(.call, 4)]

/-- Whether a production may be under way in a state with so many of its parts read. With none of
them read, the state must have a place for the phrase. -/
def State.holds (s : State) (p : Production) : Nat → Bool
  | 0 => (goto s p.lhs).isSome
  | d + 1 => s.underWay.contains (p, d + 1)

theorem underWay_of_step : ∀ (q : State) (x : GrammarSymbol), (q.step x).all (fun s ↦
    s.underWay.all fun i ↦ i.1.rhs[i.2 - 1]? = some x && q.holds i.1 (i.2 - 1)) = true := by
  decide +kernel

/-! ### How the states of expressions are reached -/

/-- Whether a connective can go on behind what was read: an expression, and if it waits to be the
operand of an operator, the connective binds before that. -/
def State.admits (c : Connective) : State → Bool
  | .after s => s.operation?.all fun o ↦ o.2.choose c = .shift
  | .bareExpr => true
  | _ => false

/-- Whether a symbol is the token of a literal. -/
def GrammarSymbol.isLiteral : GrammarSymbol → Bool
  | .token (.literal _) => true
  | _ => false

/-- How the states of expressions and those at either end of a source are reached. -/
def State.enteredBy (q : State) (x : GrammarSymbol) : State → Bool
  | .start => false
  | .complete => q = .start && x = .phrase .program
  | .after s => q = .before s && x = .phrase .expr
  | .before (.right c) => q.admits c && x = .token (.connective c)
  | .literal l => x = .token (.literal l)
  | _ => !x.isLiteral

theorem enteredBy_of_step : ∀ (q : State) (x : GrammarSymbol),
    (q.step x).all (fun s ↦ State.enteredBy q x s) = true := by
  decide +kernel

/-! ### What actions rely on -/

/-- How many phrases of one part or none can be put together in a state, in units that leave room
for the two phrases behind an empty one. -/
def State.rank : State → Nat
  | .before .firstArg | .defOpen | .ifBlock | .elifBlock => 11
  | .literal _ => 6
  | .literalAtom | .callAtom | .name | .leadingName => 5
  | .atom | .definition | .branch => 4
  | .after _ | .bareExpr | .firstParam | .compound => 3
  | .params | .noParams | .args | .noArgs | .noElse | .firstStatement | .nextStatement => 2
  | .complete | .simple | .before _ => 0
  | _ => 1

/-- The highest rank of a state behind a phrase. -/
def Nonterminal.rank : Nonterminal → Nat
  | .block => 11
  | .call | .literal => 5
  | .atom | .definition | .branch => 4
  | .expr | .compound => 3
  | .params | .args | .nothing | .statement => 2
  | .program | .simple | .mark => 0
  | _ => 1

theorem rank_le_of_goto : ∀ (q : State) (n : Nonterminal),
    (goto q n).all (fun s ↦ s.rank ≤ n.rank) = true := by
  decide +kernel

/-- Whether a state wants the operand of an operator that a production puts together, and the
operator closes before the next token if that is a connective. -/
def State.closes (k : Kind) (p : Production) (precedence : Precedence) : State → Bool
  | .after s =>
    s.operation? = some (p, precedence) && match k with
      | .connective c => precedence.choose c = .reduce
      | _ => true
  | _ => false

/-- Whether a state is the one behind a literal's token, if a production puts that together, with
something in sight that may stand behind an expression. -/
def State.holdsLiteral (s : State) (k : Kind) : Production → Bool
  | .literal l => s = .literal l && followsExpr k
  | _ => true

/-- What an action relies on in its state. A production to be put together has all its parts there;
the phrase lowers the rank, or makes the stack shorter; an operator closes before the next token,
and a literal is put together behind its token. The source is complete only in one state, at its
end. -/
def Action.fits (s : State) (k : Kind) : Action → Bool
  | .shift _ => k ≠ .eof
  | .reduce p =>
    s.holds p p.rhs.length && 8 + p.lhs.rank < 8 * p.rhs.length + s.rank
      && (p.precedence?.all fun precedence ↦ s.closes k p precedence) && s.holdsLiteral k p
  | .accept => s = .complete && k = .eof

theorem fits_of_action : ∀ (s : State) (k : Kind), (action s k).all (·.fits s k) = true := by
  decide +kernel

/-! ### What the checks say -/

/-- What is under way behind a symbol was under way before it, and the symbol is its next part. -/
theorem State.holds_of_step {q s : State} {x : GrammarSymbol} (h : q.step x = some s)
    {p : Production} {d : Nat} (hp : s.holds p (d + 1) = true) :
    p.rhs[d]? = some x ∧ q.holds p d = true := by
  have hall := underWay_of_step q x
  rw [h, Option.all_some, List.all_eq_true] at hall
  have hmem : (p, d + 1) ∈ s.underWay := by
    simpa [State.holds] using hp
  simpa using hall _ hmem

/-- All parts of a production that is put together were read. -/
theorem State.holds_of_reduce {s : State} {k : Kind} {p : Production}
    (h : action s k = some (.reduce p)) : s.holds p p.rhs.length = true := by
  have hfits := fits_of_action s k
  rw [h, Option.all_some, Action.fits, Bool.and_eq_true, Bool.and_eq_true,
    Bool.and_eq_true] at hfits
  exact hfits.1.1.1

/-- An operator is put together where its operand was wanted, and closes before the connective that
follows. -/
theorem State.closes_of_reduce {s : State} {k : Kind} {p : Production} {precedence : Precedence}
    (h : action s k = some (.reduce p)) (hp : p.precedence? = some precedence) :
    ∃ slot, s = .after slot ∧ slot.operation? = some (p, precedence) ∧
      ∀ c, k = .connective c → precedence.choose c = .reduce := by
  have hfits := fits_of_action s k
  rw [h, Option.all_some, Action.fits, Bool.and_eq_true, Bool.and_eq_true, hp,
    Option.all_some] at hfits
  have hcloses := hfits.1.2
  unfold State.closes at hcloses
  split at hcloses
  · rename_i slot
    rw [Bool.and_eq_true, decide_eq_true_eq] at hcloses
    refine ⟨slot, rfl, hcloses.1, ?_⟩
    rintro c rfl
    exact of_decide_eq_true hcloses.2
  · exact absurd hcloses Bool.false_ne_true

/-- A literal is put together behind its token, before something that may stand behind an
expression. -/
theorem State.eq_of_reduce_literal {s : State} {k : Kind} {l : LiteralKind}
    (h : action s k = some (.reduce (.literal l))) : s = .literal l ∧ followsExpr k = true := by
  have hfits := fits_of_action s k
  rw [h, Option.all_some, Action.fits, Bool.and_eq_true] at hfits
  simpa [State.holdsLiteral] using hfits.2

/-- What is put together lowers the rank, or makes the stack shorter by more. -/
theorem State.rank_lt_of_reduce {s q s' : State} {k : Kind} {p : Production}
    (h : action s k = some (.reduce p)) (hq : goto q p.lhs = some s') :
    8 + s'.rank < 8 * p.rhs.length + s.rank := by
  have hfits := fits_of_action s k
  rw [h, Option.all_some, Action.fits, Bool.and_eq_true, Bool.and_eq_true, Bool.and_eq_true,
    decide_eq_true_eq] at hfits
  have hrank := rank_le_of_goto q p.lhs
  rw [hq, Option.all_some, decide_eq_true_eq] at hrank
  omega

/-- No state has a rank above that of an empty phrase to come. -/
theorem State.rank_le (s : State) : s.rank ≤ 11 := by
  unfold State.rank
  split <;> omega

/-- A source is complete in one state only, and only at its end. -/
theorem State.eq_of_accept {s : State} {k : Kind} (h : action s k = some .accept) :
    s = .complete ∧ k = .eof := by
  have hfits := fits_of_action s k
  rw [h, Option.all_some, Action.fits] at hfits
  simpa using hfits

/-- The end of a source is not taken as a token. -/
theorem State.ne_eof_of_shift {s s' : State} {k : Kind} (h : action s k = some (.shift s')) :
    k ≠ .eof := by
  have hfits := fits_of_action s k
  rw [h, Option.all_some, Action.fits] at hfits
  simpa using hfits

theorem State.step_token_eq_some_iff {q s : State} {k : Kind} :
    q.step (.token k) = some s ↔ action q k = some (.shift s) := by
  rw [State.step]
  split
  · rename_i s' h
    simp [h]
  · rename_i h
    simpa using h s

theorem State.enteredBy_of_step {q s : State} {x : GrammarSymbol} (h : q.step x = some s) :
    State.enteredBy q x s = true := by
  have hall := Sangria.enteredBy_of_step q x
  rwa [h, Option.all_some] at hall

/-- Nothing leads back to the start. -/
theorem State.ne_start_of_step {q s : State} {x : GrammarSymbol} (h : q.step x = some s) :
    s ≠ .start := by
  rintro rfl
  exact absurd (State.enteredBy_of_step h) Bool.false_ne_true

/-- A whole program is read at the start. -/
theorem State.eq_of_step_complete {q : State} {x : GrammarSymbol} (h : q.step x = some .complete) :
    q = .start ∧ x = .phrase .program := by
  have he : (decide (q = .start) && decide (x = .phrase .program)) = true :=
    State.enteredBy_of_step h
  simpa using he

/-- The state behind an expression in a slot is reached by an expression before that slot. -/
theorem State.eq_of_step_after {q : State} {x : GrammarSymbol} {s : Slot}
    (h : q.step x = some (.after s)) : q = .before s ∧ x = .phrase .expr := by
  have he : (decide (q = .before s) && decide (x = .phrase .expr)) = true :=
    State.enteredBy_of_step h
  simpa using he

/-- The token of a literal leads to the state of that literal. -/
theorem State.eq_of_step_literal_token {q s : State} {l : LiteralKind}
    (h : q.step (.token (.literal l)) = some s) : s = .literal l := by
  have he := State.enteredBy_of_step h
  cases s with
  | literal l' =>
    obtain ⟨rfl⟩ : GrammarSymbol.token (.literal l) = .token (.literal l') := of_decide_eq_true he
    rfl
  | complete => exact absurd (State.eq_of_step_complete h).2 (by simp)
  | after s => exact absurd (State.eq_of_step_after h).2 (by simp)
  | before s =>
    cases s with
    | right c =>
      -- a connective is no literal
      have hc := (Bool.and_eq_true_iff.1 he).2
      exact absurd (of_decide_eq_true hc) (by simp)
    | _ => exact absurd he Bool.false_ne_true
  | _ => exact absurd he Bool.false_ne_true

/-- No phrase leads to the state of a literal's token. -/
theorem State.ne_literal_of_goto {q s : State} {n : Nonterminal} (h : goto q n = some s)
    (l : LiteralKind) : s ≠ .literal l := by
  rintro rfl
  have he : decide (GrammarSymbol.phrase n = .token (.literal l)) = true :=
    State.enteredBy_of_step (x := .phrase n) h
  exact absurd (of_decide_eq_true he) (by simp)

/-- The slot behind a connective is reached by it, and an operator that waits for its operand before
the connective binds less. -/
theorem State.eq_of_step_right {q : State} {x : GrammarSymbol} {c : Connective}
    (h : q.step x = some (.before (.right c))) :
    x = .token (.connective c) ∧
      ∀ s, q = .after s → ∀ o ∈ s.operation?, o.2.choose c = .shift := by
  have he : (q.admits c && decide (x = .token (.connective c))) = true := State.enteredBy_of_step h
  rw [Bool.and_eq_true, decide_eq_true_eq] at he
  refine ⟨he.2, ?_⟩
  rintro s rfl o ho
  have ha := he.1
  rw [State.admits, Option.all_eq_true] at ha
  exact of_decide_eq_true (ha o ho)

end Sangria
