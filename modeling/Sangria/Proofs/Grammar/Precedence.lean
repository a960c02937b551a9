import Sangria.Grammar.Production

/-!
# Precedence as a comparison of levels

`Precedence.choose` decides between an operator whose operand was read and the connective behind it.
Here the two answers that let reading go on are stated as comparisons of levels, with associativity
at equal levels (`Precedence.choose_eq_reduce_iff`, `Precedence.choose_eq_shift_iff`).

The two comparisons exclude each other along a chain: what opens inside an operator closes before
nothing that the operator itself closes before, unless that is so for both
(`Precedence.OpensInside.of_closesBefore`).
-/

namespace Sangria

/-- The precedence of the operator that a production puts together, if there is one. -/
def Production.precedence? : Production → Option Precedence
  | .join c => some c.precedence
  | .negation => some negationPrecedence
  | .signed _ => some signPrecedence
  | _ => none

/-- Whether a connective compares its two sides. -/
def Connective.isComparison : Connective → Bool
  | .apply .eq | .apply .ne | .apply .lt | .apply .gt | .apply .le | .apply .ge => true
  | _ => false

namespace Precedence

/-- An operator is put together before a connective that follows its operand: it has a higher level,
or the same one and that level is read from the left. -/
def ClosesBefore (p next : Precedence) : Prop :=
  next.level < p.level ∨ (p.level = next.level ∧ next.associativity = .left)

/-- A connective is put together inside the right operand of an operator: it has a higher level, or
the same one and that level is read from the right. -/
def OpensInside (p outer : Precedence) : Prop :=
  outer.level < p.level ∨ (p.level = outer.level ∧ p.associativity = .right)

instance (p next : Precedence) : Decidable (p.ClosesBefore next) :=
  inferInstanceAs (Decidable (_ ∨ _))

instance (p outer : Precedence) : Decidable (p.OpensInside outer) :=
  inferInstanceAs (Decidable (_ ∨ _))

theorem choose_eq_reduce_iff {p : Precedence} {c : Connective} :
    p.choose c = .reduce ↔ p.ClosesBefore c.precedence := by
  unfold choose ClosesBefore
  split
  · simp only [reduceCtorEq, false_iff]; omega
  · split
    · simp only [true_iff]; omega
    · have heq : p.level = c.precedence.level := by omega
      cases c.precedence.associativity <;> simp [heq]

theorem choose_eq_shift_iff {p : Precedence} {c : Connective} :
    p.choose c = .shift ↔ c.precedence.OpensInside p := by
  unfold choose OpensInside
  split
  · simp only [true_iff]; omega
  · split
    · simp only [reduceCtorEq, false_iff]; omega
    · have heq : p.level = c.precedence.level := by omega
      cases c.precedence.associativity <;> simp [heq]

/-- A connective that an operator on its left side closes before opens inside whatever that operator
opens inside. -/
theorem OpensInside.of_closesBefore {p next outer : Precedence} (hn : p.ClosesBefore next)
    (ho : next.OpensInside outer) : p.OpensInside outer := by
  unfold ClosesBefore OpensInside at *
  rcases hn with hn | ⟨hn, hl⟩ <;> rcases ho with ho | ⟨ho, hr⟩
  · exact .inl (by omega)
  · exact .inl (by omega)
  · exact .inl (by omega)
  · rw [hl] at hr
    exact absurd hr (by decide)

end Precedence

/-- Two comparisons neither close before each other nor open inside each other. -/
theorem Connective.not_closesBefore_of_isComparison {c d : Connective} (hc : c.isComparison = true)
    (hd : d.isComparison = true) :
    ¬ c.precedence.ClosesBefore d.precedence ∧ ¬ c.precedence.OpensInside d.precedence := by
  have level : ∀ e : Connective, e.isComparison = true → e.precedence = ⟨4, .neither⟩ := by
    intro e he
    rcases e with op | - | -
    · cases op <;> first | rfl | exact absurd he (by decide)
    · exact absurd he (by decide)
    · exact absurd he (by decide)
  rw [level c hc, level d hd]
  decide

end Sangria
