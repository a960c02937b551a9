import Sangria.Proofs.Grammar.Soundness
import Sangria.Proofs.Token.Deliveries

/-!
# Soundness of parsing

A parse that finds a program has read a derivation off the tokens of the source. The derivation
respects precedence, and the program is what its productions build (`exists_derivation_of_parse`).

That comparisons do not chain is a case of this: two comparisons are of one level, and that level is
read neither from the left nor from the right (`Derivation.isComparison_eq_false_of_operand`).
-/

namespace Sangria

theorem parse_eq_readProgram (source : String) :
    parse source = readProgram source.toList
      (deliveries source.toList (.ofText source.toList) .initial) [] :=
  rfl

namespace Derivation

/-- A comparison has no comparison as an operand, unless in parentheses. -/
theorem isComparison_eq_false_of_operand {c : Connective} {parts : List Derivation}
    (h : (phrase (.join c) parts).Sound) (hc : c.isComparison = true) :
    ∀ operand ∈ parts, ∀ d ∈ operand.connective?, d.isComparison = false := by
  intro operand hoperand d hd
  obtain ⟨left, t, right, rfl, -⟩ := exists_join_parts h.grammar
  rw [← Bool.not_eq_true]
  intro hd'
  obtain ⟨hcloses, hopens⟩ := Connective.not_closesBefore_of_isComparison hd' hc
  simp only [List.mem_cons, List.not_mem_nil, or_false] at hoperand
  rcases hoperand with rfl | rfl | rfl
  · exact hcloses (h.left _ (precedence_mem_rightSpine hd))
  · -- the connective itself is a token
    exact absurd hd (by simp [connective?])
  · exact hopens (h.right _ rfl operand rfl d hd)

end Derivation

/-- A program that a source is parsed to has a derivation in the grammar. Its tokens are those of
the source and its value is the program. It respects precedence at every node: an operator that is
open on the right of a connective's left operand closes before the connective, and a connective
that is the last operand of an operator opens inside it. So comparisons are not operands of each
other. -/
theorem exists_derivation_of_parse {source : String} {program : Block}
    (h : parse source = .ok program) :
    ∃ d : Derivation, d.symbol = .phrase .program ∧
      tokenize source = .ok (d.tokens.map (TokenStream.token source.toList) ++
        [TokenStream.eofToken source.toList]) ∧
      d.value source.toList = .ok (.block program) ∧
      (∀ n ∈ d.nodes, n.FollowsGrammar ∧ n.LeftOperandBinds ∧ n.RightOperandBinds) ∧
      ∀ c parts, .phrase (.join c) parts ∈ d.nodes → c.isComparison = true →
        ∀ operand ∈ parts, ∀ c' ∈ operand.connective?, c'.isComparison = false := by
  rw [parse_eq_readProgram] at h
  obtain ⟨ts, d, hts, htokens, hsymbol, hvalid, hvalue⟩ :=
    exists_derivation_of_readProgram .nil (fun t _ ↦ closesAhead_nil t.kind) h
  obtain rfl : d.tokens = ts := by simpa [readTokens] using htokens
  refine ⟨d, hsymbol, tokenize_eq_ok_iff.2 ⟨_, deliveries_eq_iff.1 hts, rfl⟩, hvalue, ?_, ?_⟩
  · exact fun n hn ↦ ⟨(hvalid n hn).grammar, (hvalid n hn).left, (hvalid n hn).right⟩
  · exact fun c parts hn hc ↦ Derivation.isComparison_eq_false_of_operand (hvalid _ hn) hc

/-- A negation inside a sum: it takes all that is on its right. -/
theorem exists_derivation_of_parse_negation :
    ∃ d : Derivation, d.symbol = .phrase .program ∧
      tokenize "1 + not 2 * 3\n" = .ok (d.tokens.map (TokenStream.token "1 + not 2 * 3\n".toList) ++
        [TokenStream.eofToken "1 + not 2 * 3\n".toList]) ∧
      d.value "1 + not 2 * 3\n".toList = .ok (.block [⟨⟨1, 1⟩, .eval (.binary (.known .add)
        (.literal (.int 1))
        (.not (.binary (.known .mul) (.literal (.int 2)) (.literal (.int 3)))))⟩]) := by
  have hparse : parse "1 + not 2 * 3\n" = .ok [⟨⟨1, 1⟩, .eval (.binary (.known .add)
      (.literal (.int 1))
      (.not (.binary (.known .mul) (.literal (.int 2)) (.literal (.int 3)))))⟩] := by
    rfl
  obtain ⟨d, hsymbol, htokens, hvalue, -⟩ := exists_derivation_of_parse hparse
  exact ⟨d, hsymbol, htokens, hvalue⟩

end Sangria
