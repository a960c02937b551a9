import Mathlib.Data.List.Forall2
import Sangria.Grammar.Phrase
import Sangria.Proofs.Grammar.Precedence

/-!
# Derivations

A derivation is a tree of productions with tokens at its leaves. It is built without any regard to
how a reader finds it: it stands for the tokens at its leaves in order (`Derivation.tokens`), it is
one of the grammar if every node has the parts that its production asks for
(`Derivation.FollowsGrammar`), and its value is what the productions make of the values of the parts
(`Derivation.value`).

## Which of the ambiguous readings is meant

The grammar of expressions is ambiguous, and the precedence table singles out one derivation. It is
stated here on derivations, by comparing levels, in two conditions on a node.

* `Derivation.LeftOperandBinds`: in the left operand of a connective, every operator that is open on
  the right (`Derivation.rightSpine`) binds before the connective.
* `Derivation.RightOperandBinds`: a connective that makes the right or only operand of an operator
  binds before that operator.

Parentheses need no mention in either: an expression in parentheses is an atom, and an atom has no
spine and no connective.
-/

namespace Sangria

/-- A derivation of a symbol of the grammar. -/
inductive Derivation
  /-- A token for itself. -/
  | token (t : Lexeme)
  /-- A phrase that a production makes of its parts. -/
  | phrase (p : Production) (parts : List Derivation)

namespace Derivation

/-- Induction on a derivation, with the statement for each of the parts. -/
@[elab_as_elim, induction_eliminator]
theorem parts_induction {motive : Derivation → Prop} (token : ∀ t, motive (.token t))
    (phrase : ∀ p parts, (∀ d ∈ parts, motive d) → motive (.phrase p parts)) (d : Derivation) :
    motive d :=
  @Derivation.rec motive (fun parts ↦ ∀ d ∈ parts, motive d) token phrase
    (fun _ h ↦ absurd h List.not_mem_nil)
    (fun _ _ hd hrest _ h ↦ (List.mem_cons.1 h).elim (fun e ↦ e ▸ hd) (hrest _)) d

/-! ### What a derivation stands for -/

/-- The symbol that is derived. -/
def symbol : Derivation → GrammarSymbol
  | token t => .token t.kind
  | phrase p _ => .phrase p.lhs

/-- The tokens at the leaves, in order. -/
def tokens : Derivation → List Lexeme
  | token t => [t]
  | phrase _ parts => tokensOf parts
where
  /-- The tokens of several derivations. -/
  tokensOf : List Derivation → List Lexeme
    | [] => []
    | d :: rest => d.tokens ++ tokensOf rest

/-- The offset of the first token. -/
def start (tokens : List Lexeme) : Nat :=
  (tokens.head?.map (·.offset)).getD 0

/-- What a derivation means, from the meanings of its parts. -/
def value (text : List Char) : Derivation → Except BuildFault Meaning
  | token t => .ok (.token t)
  | phrase p parts =>
    match values text parts with
    | .ok ms => build text (start (tokens.tokensOf parts)) p ms
    | .error f => .error f
where
  /-- The meanings of several derivations. -/
  values (text : List Char) : List Derivation → Except BuildFault (List Meaning)
    | [] => .ok []
    | d :: rest =>
      match d.value text with
      | .error f => .error f
      | .ok m =>
        match values text rest with
        | .error f => .error f
        | .ok ms => .ok (m :: ms)

/-- A derivation and all those that it is made of. -/
def nodes : Derivation → List Derivation
  | token t => [token t]
  | phrase p parts => phrase p parts :: nodesOf parts
where
  /-- The nodes of several derivations. -/
  nodesOf : List Derivation → List Derivation
    | [] => []
    | d :: rest => d.nodes ++ nodesOf rest

/-! ### Which derivations are meant -/

/-- The parts of a node are those that its production asks for. -/
def FollowsGrammar : Derivation → Prop
  | token _ => True
  | phrase p parts => parts.map symbol = p.rhs

/-- The operators of an expression whose right operand ends where the expression does, the outermost
first. -/
def rightSpine : Derivation → List Precedence
  | token _ => []
  | phrase p parts =>
    match p.precedence? with
    | some precedence => precedence :: lastSpine parts
    | none => []
where
  /-- The right spine of the last of several derivations. -/
  lastSpine : List Derivation → List Precedence
    | [] => []
    | [d] => d.rightSpine
    | _ :: rest => lastSpine rest

/-- The connective that an expression is made by, if it is not in parentheses. -/
def connective? : Derivation → Option Connective
  | phrase (.join c) _ => some c
  | _ => none

/-- Every operator that the left operand of a connective leaves open is put together before it. -/
def LeftOperandBinds : Derivation → Prop
  | phrase (.join c) (left :: _) => ∀ p ∈ left.rightSpine, p.ClosesBefore c.precedence
  | _ => True

/-- A connective that makes the last operand of an operator is put together inside it. -/
def RightOperandBinds : Derivation → Prop
  | phrase p parts =>
    ∀ outer ∈ p.precedence?, ∀ operand ∈ parts.getLast?, ∀ c ∈ operand.connective?,
      c.precedence.OpensInside outer
  | token _ => True

/-- What a derivation of a program is to satisfy at each of its nodes. -/
structure Sound (d : Derivation) : Prop where
  /-- The parts are those of the production. -/
  grammar : d.FollowsGrammar
  /-- The left operand binds before the node. -/
  left : d.LeftOperandBinds
  /-- The right operand binds before the node. -/
  right : d.RightOperandBinds

/-- A derivation of the grammar that respects precedence throughout. -/
def Valid (d : Derivation) : Prop :=
  ∀ n ∈ d.nodes, n.Sound

/-! ### Several derivations -/

@[simp]
theorem tokensOf_eq (ds : List Derivation) : tokens.tokensOf ds = ds.flatMap tokens := by
  induction ds with
  | nil => rfl
  | cons d rest ih => rw [tokens.tokensOf, ih, List.flatMap_cons]

@[simp]
theorem nodesOf_eq (ds : List Derivation) : nodes.nodesOf ds = ds.flatMap nodes := by
  induction ds with
  | nil => rfl
  | cons d rest ih => rw [nodes.nodesOf, ih, List.flatMap_cons]

@[simp]
theorem tokens_phrase (p : Production) (parts : List Derivation) :
    (phrase p parts).tokens = parts.flatMap tokens := by
  rw [tokens, tokensOf_eq]

/-- The parts have meanings exactly when each has one. -/
theorem values_eq_ok_iff {text : List Char} {ds : List Derivation} {ms : List Meaning} :
    value.values text ds = .ok ms ↔ List.Forall₂ (fun d m ↦ d.value text = .ok m) ds ms := by
  induction ds generalizing ms with
  | nil => simp [value.values, eq_comm]
  | cons d rest ih =>
    rw [List.forall₂_cons_left_iff, value.values]
    cases hd : d.value text with
    | error f => simp
    | ok m =>
      cases hr : value.values text rest with
      | error f => simp [← ih, hr]
      | ok ns =>
        simp only [← ih, hr, Except.ok.injEq, exists_and_left, exists_eq_left']
        exact eq_comm

/-- The meaning of a phrase is built from the meanings of its parts. -/
theorem value_phrase {text : List Char} {parts : List Derivation} {ms : List Meaning}
    (h : List.Forall₂ (fun d m ↦ d.value text = .ok m) parts ms) (p : Production) :
    (phrase p parts).value text = build text (start (parts.flatMap tokens)) p ms := by
  rw [value, values_eq_ok_iff.2 h, tokensOf_eq]

/-- A phrase with a meaning has parts with meanings. -/
theorem value_phrase_eq_ok_iff {text : List Char} {p : Production} {parts : List Derivation}
    {m : Meaning} :
    (phrase p parts).value text = .ok m ↔
      ∃ ms, List.Forall₂ (fun d m ↦ d.value text = .ok m) parts ms ∧
        build text (start (parts.flatMap tokens)) p ms = .ok m := by
  simp only [value, tokensOf_eq, ← values_eq_ok_iff]
  cases value.values text parts with
  | error f => simp
  | ok ms => simp

/-- The tokens of a phrase are the tokens of its parts, so a phrase is valid exactly when it is
sound itself and its parts are valid. -/
theorem valid_phrase_iff {p : Production} {parts : List Derivation} :
    (phrase p parts).Valid ↔ (phrase p parts).Sound ∧ ∀ d ∈ parts, d.Valid := by
  simp only [Valid, nodes, nodesOf_eq, List.forall_mem_cons, List.mem_flatMap]
  exact and_congr_right fun _ ↦
    ⟨fun h d hd n hn ↦ h n ⟨d, hd, hn⟩, fun h n ⟨d, hd, hn⟩ ↦ h d hd n hn⟩

theorem valid_token (t : Lexeme) : (token t).Valid := by
  simp only [Valid, nodes, List.forall_mem_singleton]
  exact ⟨trivial, trivial, trivial⟩

/-- Only a token stands for a token. -/
theorem exists_token {d : Derivation} {k : Kind} (h : d.symbol = .token k) :
    ∃ t, d = token t ∧ t.kind = k := by
  cases d with
  | token t => exact ⟨t, rfl, GrammarSymbol.token.inj h⟩
  | phrase p parts => exact absurd h (by simp [symbol])

/-- The parts of a connective's phrase are two expressions with the connective between them. -/
theorem exists_join_parts {c : Connective} {parts : List Derivation}
    (h : parts.map symbol = (Production.join c).rhs) :
    ∃ left t right, parts = [left, token t, right] ∧ t.kind = .connective c ∧
      left.symbol = .phrase .expr ∧ right.symbol = .phrase .expr := by
  have hlength : parts.length = 3 := by
    rw [← List.length_map, h]
    rfl
  obtain ⟨left, sign, right, rfl⟩ := List.length_eq_three.1 hlength
  obtain ⟨hleft, hsign, hright⟩ : left.symbol = .phrase .expr ∧
      sign.symbol = .token (.connective c) ∧ right.symbol = .phrase .expr := by
    simpa [Production.rhs] using h
  obtain ⟨t, rfl, hkind⟩ := exists_token hsign
  exact ⟨left, t, right, rfl, hkind, hleft, hright⟩

theorem connective?_phrase_eq_some_iff {p : Production} {parts : List Derivation}
    {c : Connective} : (phrase p parts).connective? = some c ↔ p = .join c := by
  cases p <;> simp [connective?]

/-- The connective that makes an expression is open on the right. -/
theorem precedence_mem_rightSpine {d : Derivation} {c : Connective} (h : d.connective? = some c) :
    c.precedence ∈ d.rightSpine := by
  cases d with
  | token t => exact absurd h (by simp [connective?])
  | phrase p parts =>
    obtain rfl := connective?_phrase_eq_some_iff.1 h
    exact List.mem_cons_self

theorem lastSpine_append_singleton (ds : List Derivation) (d : Derivation) :
    rightSpine.lastSpine (ds ++ [d]) = d.rightSpine := by
  induction ds with
  | nil => rfl
  | cons e rest ih =>
    cases rest with
    | nil => rfl
    | cons e' rest => exact ih

/-- The operators open on the right of an operator's phrase are its own and those of its last
part. -/
theorem rightSpine_phrase_append {p : Production} {precedence : Precedence}
    (h : p.precedence? = some precedence) (parts : List Derivation) (last : Derivation) :
    (phrase p (parts ++ [last])).rightSpine = precedence :: last.rightSpine := by
  rw [rightSpine, h]
  exact congrArg _ (lastSpine_append_singleton parts last)

theorem rightSpine_phrase_of_none {p : Production} (h : p.precedence? = none)
    (parts : List Derivation) : (phrase p parts).rightSpine = [] := by
  rw [rightSpine, h]

end Derivation

end Sangria
