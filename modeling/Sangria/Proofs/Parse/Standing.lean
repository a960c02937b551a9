import Mathlib.Data.List.Flatten
import Sangria.Proofs.Grammar.Beginning
import Sangria.Proofs.Parse.Soundness
import Sangria.Proofs.Position
import Sangria.Proofs.Program.Positions
import Sangria.Proofs.Token.Tiling

/-!
# Where the statements of a source stand

Each statement of a program that a source is parsed to, however deep inside others, has a node of
the derivation, and stands where the first token of that node does (`statements_stand`). A branch
that a further condition makes stands at the word of that condition. Statements in turn, each in
front of those inside it, stand further and further on in the source.

## What each part rests on

* `Derivation.makes_statements` pairs the statements with the nodes that make them.
* `Derivation.heads_sublist` says that the first tokens of these nodes are tokens of the source, each
  taken once: a statement inside another never begins with it. Which phrases may begin with a
  statement inside them is a table, checked against the productions (`opensStatement_of_rhs`).
* These tokens are words, and words stand one behind the other (`Tiles.ordered`).
-/

namespace Sangria

/-! ### Phrases that begin with a statement -/

/-- Whether a phrase may begin with a statement, or with a further condition. -/
def Nonterminal.opensStatement : Nonterminal → Bool
  | .program | .statements | .statement | .otherwise => true
  | _ => false

/-- Whether a symbol may begin with a statement, or with a further condition. -/
def GrammarSymbol.opensStatement : GrammarSymbol → Bool
  | .token _ => false
  | .phrase n => n.opensStatement

/-- A phrase that begins with a phrase of these is one of them, and makes no statement itself. -/
theorem opensStatement_of_rhs : ∀ p : Production,
    p.rhs.head?.any (·.opensStatement) = true →
      p.lhs.opensStatement = true ∧ p.isStatement = false := by
  decide +kernel

theorem opensStatement_of_isStatement : ∀ p : Production,
    p.isStatement = true → p.lhs.opensStatement = true := by
  decide +kernel

/-- A statement begins with a word, and so does a further condition. -/
theorem isWord_of_begins : ∀ (p : Production) (k : Kind),
    p.isStatement = true → p.lhs.begins k = true → k.isWord = true := by
  decide +kernel

/-- A production that makes a statement makes it of some token. -/
theorem not_all_nullable_of_isStatement : ∀ p : Production,
    p.isStatement = true → (p.rhs.all (·.nullable)) = false := by
  decide +kernel

/-- What is a statement and follows the block of a branch begins with the word of a condition. -/
theorem head?_of_otherwise : ∀ p : Production,
    p.isStatement = true → p.lhs = .otherwise → p.rhs.head? = some (.token .elifWord) := by
  decide +kernel

namespace Derivation

/-- The nodes of a derivation that is valid are valid. -/
theorem valid_of_mem_nodes {d n : Derivation} (hd : d.Valid) (h : n ∈ d.nodes) : n.Valid := by
  induction d with
  | token t =>
    obtain rfl := List.mem_singleton.1 h
    exact hd
  | phrase p parts ih =>
    rw [nodes, nodesOf_eq] at h
    rcases List.mem_cons.1 h with rfl | h
    · exact hd
    · obtain ⟨e, he, hn⟩ := List.mem_flatMap.1 h
      exact ih e he ((valid_phrase_iff.1 hd).2 e he) hn

/-! ### The first tokens of statements -/

/-- The first tokens of the nodes that make statements, in the order of the nodes. -/
def heads (d : Derivation) : List Lexeme :=
  (d.nodes.filter isStatement).flatMap (·.tokens.head?.toList)

theorem heads_phrase (p : Production) (parts : List Derivation) :
    (phrase p parts).heads =
      (if p.isStatement then (parts.flatMap tokens).head?.toList else []) ++
        parts.flatMap heads := by
  have hinner : ((parts.flatMap nodes).filter isStatement).flatMap (·.tokens.head?.toList) =
      parts.flatMap heads := by
    rw [List.filter_flatMap, List.flatMap_assoc]
    rfl
  rw [heads, nodes, nodesOf_eq, List.filter_cons, isStatement]
  split
  · rw [List.flatMap_cons, tokens_phrase, hinner]
  · rw [hinner, List.nil_append]

/-- The first tokens of statements are tokens of the derivation, each taken once, and the first token
of a phrase that does not begin with a statement is none of them. -/
theorem heads_sublist {d : Derivation} (hd : d.Valid) :
    d.heads.Sublist d.tokens ∧
      (d.symbol.opensStatement = false → d.heads.Sublist d.tokens.tail) := by
  induction d with
  | token t => exact ⟨List.nil_sublist _, fun _ ↦ List.nil_sublist _⟩
  | phrase p parts ih =>
    obtain ⟨hs, hparts⟩ := valid_phrase_iff.1 hd
    have hgrammar : parts.map symbol = p.rhs := hs.grammar
    have hinner {es : List Derivation} (hes : es ⊆ parts) :
        (es.flatMap heads).Sublist (es.flatMap tokens) :=
      List.Sublist.flatMap_right es fun e he ↦ (ih e (hes he) (hparts e (hes he))).1
    -- no statement begins where the phrase does, if none begins where its first part does
    have htail (hfirst : p.rhs.head?.any (·.opensStatement) = false) :
        (parts.flatMap heads).Sublist (parts.flatMap tokens).tail := by
      rcases parts with - | ⟨e, rest⟩
      · exact .slnil
      · have hvalid := hparts e List.mem_cons_self
        rw [← hgrammar] at hfirst
        have hfirst := (ih e List.mem_cons_self hvalid).2 hfirst
        have hrest := hinner (List.subset_cons_self e rest)
        rw [List.flatMap_cons, List.flatMap_cons]
        rcases htokens : e.tokens with - | ⟨t, ts⟩
        · -- what begins with a phrase of no token is of nothing else
          have hnullable := nullable_of_tokens_eq_nil hvalid htokens
          have hlength := rhs_of_nullable_head p (by rw [← hgrammar]; exact hnullable)
          rw [← hgrammar, List.length_map, List.length_cons, Nat.add_eq_right,
            List.length_eq_zero_iff] at hlength
          rw [htokens] at hfirst
          rw [hlength, List.flatMap_nil, List.flatMap_nil, List.append_nil]
          exact hfirst
        · rw [htokens] at hfirst
          exact hfirst.append hrest
    rw [heads_phrase, tokens_phrase]
    cases hp : p.isStatement with
    | true =>
      have hfirst : p.rhs.head?.any (·.opensStatement) = false := by
        rw [← Bool.not_eq_true]
        intro hopens
        exact absurd (hp.symm.trans (opensStatement_of_rhs p hopens).2) (by decide)
      refine ⟨?_, fun hopens ↦ ?_⟩
      · have hsublist := htail hfirst
        rcases htokens : parts.flatMap tokens with - | ⟨t, ts⟩
        · rw [htokens] at hsublist
          exact hsublist
        · rw [htokens] at hsublist
          exact hsublist.cons_cons t
      · exact absurd ((opensStatement_of_isStatement p hp).symm.trans hopens) (by decide)
    | false =>
      refine ⟨hinner (List.Subset.refl parts), fun hopens ↦ htail ?_⟩
      rw [← Bool.not_eq_true]
      intro hfirst
      exact absurd ((opensStatement_of_rhs p hfirst).1.symm.trans hopens) (by decide)

/-- A node that makes a statement has a first token, which is a word. Where it is what a further
condition begins, that is the word of the condition. -/
theorem exists_first {n : Derivation} (hn : n.Valid) (h : n.isStatement = true) :
    ∃ t rest, n.tokens = t :: rest ∧ t.kind.isWord = true ∧
      (n.symbol = .phrase .otherwise → t.kind = .elifWord) := by
  rcases n with t | ⟨p, parts⟩
  · exact absurd h Bool.false_ne_true
  obtain ⟨hs, hparts⟩ := valid_phrase_iff.1 hn
  have hgrammar : parts.map symbol = p.rhs := hs.grammar
  rcases htokens : (phrase p parts).tokens with - | ⟨t, rest⟩
  · rw [tokens_phrase] at htokens
    have hnullable := all_nullable_of_flatMap_eq_nil hparts htokens
    rw [hgrammar, not_all_nullable_of_isStatement p h] at hnullable
    exact absurd hnullable Bool.false_ne_true
  · have hbegins := begins_of_head? hn t (by rw [htokens]; rfl)
    refine ⟨t, rest, rfl, isWord_of_begins p t.kind h hbegins, fun hsymbol ↦ ?_⟩
    -- the first part is the word of the condition
    have hfirst := head?_of_otherwise p h (GrammarSymbol.phrase.inj hsymbol)
    rw [← hgrammar] at hfirst
    rcases parts with - | ⟨e, parts⟩
    · exact absurd hfirst (by simp)
    · obtain ⟨u, rfl, hkind⟩ := exists_token (Option.some.inj hfirst)
      rw [tokens_phrase, List.flatMap_cons] at htokens
      obtain rfl : u = t := (List.cons.inj htokens).1
      exact hkind

end Derivation

/-- A node of a derivation is that of a statement: it makes the statement, and the statement stands
where its first token does. -/
structure Derivation.StandsFor (text : List Char) (n : Derivation) (s : Located Stmt) : Prop where
  /-- The statement is what the node means, or is what follows the block of a branch. -/
  makes : n.value text = .ok (.statement s) ∨ n.value text = .ok (.otherwise (some [s]))
  /-- Its position is that of the first token. -/
  first : ∃ t rest, n.tokens = t :: rest ∧ s.position = (TokenStream.token text t).position ∧
    (n.symbol = .phrase .otherwise → t.kind = .elifWord)

namespace Derivation

variable {text : List Char} {d : Derivation}

/-- The statements that a valid derivation means stand where the first tokens of their nodes do. -/
theorem standsFor_statements {m : Meaning} (hd : d.Valid) (h : d.value text = .ok m) :
    List.Forall₂ (StandsFor text) (d.nodes.filter isStatement) m.statements := by
  have hvalid : ∀ n ∈ d.nodes.filter isStatement, n.Valid ∧ n.isStatement = true := fun n hn ↦
    ⟨valid_of_mem_nodes hd (List.mem_of_mem_filter hn), (List.mem_filter.1 hn).2⟩
  refine ((List.forall₂_and_left _ _).2 ⟨hvalid, makes_statements h⟩).imp fun n s hn ↦ ?_
  obtain ⟨⟨hn, hstatement⟩, hmakes⟩ := hn
  obtain ⟨t, rest, htokens, -, hword⟩ := exists_first hn hstatement
  cases hmakes with
  | @intro p parts m s _ hvalue hs hposition =>
    refine ⟨hs.eq_or_eq.imp (fun hm ↦ hvalue.trans (congrArg _ hm))
      (fun hm ↦ hvalue.trans (congrArg _ hm)), t, rest, htokens, ?_, hword⟩
    rw [tokens_phrase] at htokens
    rw [hposition, htokens]
    rfl

/-- Where statements stand, in terms of the first tokens of their nodes. -/
theorem positions_eq_of_standsFor {ns : List Derivation} {ss : List (Located Stmt)}
    (h : List.Forall₂ (StandsFor text) ns ss) :
    ss.map (·.position) =
      (ns.flatMap (·.tokens.head?.toList)).map fun t ↦ .ofOffset text t.offset := by
  induction h with
  | nil => rfl
  | cons hn _ ih =>
    obtain ⟨-, t, rest, htokens, hposition, -⟩ := hn
    rw [List.map_cons, ih, hposition, List.flatMap_cons, htokens]
    rfl

/-- The first tokens of the nodes that make statements are words. -/
theorem isWord_of_mem_heads (hd : d.Valid) {t : Lexeme} (ht : t ∈ d.heads) :
    t.kind.isWord = true := by
  obtain ⟨n, hn, ht⟩ := List.mem_flatMap.1 ht
  obtain ⟨hn, hstatement⟩ := List.mem_filter.1 hn
  obtain ⟨u, rest, htokens, hword, -⟩ := exists_first (valid_of_mem_nodes hd hn) hstatement
  rw [htokens] at ht
  obtain rfl := List.mem_singleton.1 ht
  exact hword

/-- Nodes that make statements begin one behind the other, if the tokens of the derivation that are
written stand so. -/
theorem pairwise_heads (hd : d.Valid)
    (h : (d.tokens.filter (·.isWritten)).Pairwise fun t u ↦ t.offset < u.offset) :
    d.heads.Pairwise fun t u ↦ t.offset < u.offset := by
  have hwritten : ∀ t ∈ d.heads, t.isWritten = true := fun t ht ↦ by
    simp [Lexeme.isWritten, isWord_of_mem_heads hd ht]
  rw [← List.filter_eq_self.2 hwritten]
  exact h.sublist ((heads_sublist hd).1.filter _)

end Derivation

/-- Every statement of a program that a source is parsed to stands where the first token of its own
node in the derivation does, and statements in turn, each in front of those inside it, stand further
and further on. -/
theorem statements_stand {source : String} {program : Block} (h : parse source = .ok program) :
    ∃ d : Derivation, d.symbol = .phrase .program ∧ d.Valid ∧
      tokenize source = .ok (d.tokens.map (TokenStream.token source.toList) ++
        [TokenStream.eofToken source.toList]) ∧
      d.value source.toList = .ok (.block program) ∧
      List.Forall₂ (Derivation.StandsFor source.toList) (d.nodes.filter (·.isStatement))
        (Block.statements program) ∧
      (Block.positions program).Pairwise Position.Before := by
  rw [parse_eq_readProgram] at h
  obtain ⟨ts, d, hts, htokens, hsymbol, hvalid, hvalue⟩ :=
    exists_derivation_of_readProgram .nil (fun t _ ↦ closesAhead_nil t.kind) h
  obtain rfl : d.tokens = ts := by simpa [readTokens] using htokens
  have hstands := Derivation.standsFor_statements hvalid hvalue
  obtain ⟨htiles, hle⟩ := tiles_of_deliveries hts
  refine ⟨d, hsymbol, hvalid, tokenize_eq_ok_iff.2 ⟨_, deliveries_eq_iff.1 hts, rfl⟩, hvalue,
    hstands, ?_⟩
  have hpositions : Block.positions program =
      d.heads.map fun t ↦ .ofOffset source.toList t.offset :=
    (Block.positions_eq_map program).trans (Derivation.positions_eq_of_standsFor hstands)
  rw [hpositions, List.pairwise_map]
  have hordered := Derivation.pairwise_heads hvalid htiles.ordered
  refine hordered.imp_of_mem fun {t u} _ hu hlt ↦ Position.before_of_lt hlt ?_
  exact hle u ((Derivation.heads_sublist hvalid).1.subset hu)

/-- A function with a branch inside, a further condition and a statement in parentheses. -/
theorem statements_stand_branch :
    let source := "def f(x):\n  if x:\n    (x)\n  elif f(1):\n    y = 2\n3\n"
    let positions : List Position := [⟨1, 1⟩, ⟨2, 3⟩, ⟨3, 5⟩, ⟨4, 3⟩, ⟨5, 5⟩, ⟨6, 1⟩]
    let inner : Block := [⟨⟨4, 3⟩, .branch (.call "f" [.literal (.int 1)])
      [⟨⟨5, 5⟩, .assign "y" none (.literal (.int 2))⟩] none⟩]
    let program : Block := [⟨⟨1, 1⟩, .define "f" ["x"] [⟨⟨2, 3⟩, .branch (.name "x")
      [⟨⟨3, 5⟩, .eval (.name "x")⟩] (some inner)⟩]⟩, ⟨⟨6, 1⟩, .eval (.literal (.int 3))⟩]
    parse source = .ok program ∧ Block.positions program = positions ∧
      positions.Pairwise Position.Before ∧
      ∃ d : Derivation, d.value source.toList = .ok (.block program) ∧
        List.Forall₂ (Derivation.StandsFor source.toList) (d.nodes.filter (·.isStatement))
          (Block.statements program) := by
  intro source positions inner program
  have hparse : parse "def f(x):\n  if x:\n    (x)\n  elif f(1):\n    y = 2\n3\n" = .ok program := by
    rfl
  obtain ⟨d, -, -, -, hvalue, hstands, hordered⟩ := statements_stand hparse
  exact ⟨hparse, rfl, hordered, d, hvalue, hstands⟩

end Sangria
