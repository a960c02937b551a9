import Sangria.Value.Operate

/-!
# Faults of templates

The fault of a template has one origin: the operator `%` with a text on its left that cannot be
filled with the value on its right (`Value.apply_eq_template_iff`). Every other operator, and the
same operator on numbers, fails in other ways.
-/

namespace Sangria

/-- The fault of a result, if there is one, is not that of a template. -/
def Untemplated {α : Type} (r : Except OperatorFault α) : Prop :=
  ∀ f, r ≠ .error (.template f)

namespace Untemplated

variable {α β : Type}

theorem ok (a : α) : Untemplated (.ok a) := by
  simp [Untemplated]

theorem error {e : OperatorFault} (h : ∀ f, e ≠ .template f) :
    Untemplated (.error e : Except OperatorFault α) :=
  fun f hf ↦ h f (Except.error.inj hf)

theorem map {r : Except OperatorFault α} (h : Untemplated r) (f : α → β) :
    Untemplated (r.map f) := by
  cases r with
  | error e => exact error fun t ht ↦ h t (ht ▸ rfl)
  | ok a => exact ok _

/-- A fault that is passed on is not that of a template either. -/
theorem of_eq_error {r : Except OperatorFault α} (h : Untemplated r) {e : OperatorFault}
    (he : r = .error e) : Untemplated (.error e : Except OperatorFault β) :=
  error fun t ht ↦ h t (ht ▸ he)

end Untemplated

namespace Value

theorem untemplated_realOfInt (n : Int) : Untemplated (realOfInt n) := by
  unfold realOfInt
  dsimp only
  split
  · exact .error (by simp)
  · exact .ok _

theorem untemplated_joinReal (f : Float → NumberPair) (n : Int) : Untemplated (joinReal f n) :=
  (untemplated_realOfInt n).map f

theorem untemplated_numbers (a b : Value) : Untemplated (numbers a b) := by
  unfold numbers
  split
  · exact .ok _
  · exact .ok _
  · exact .ok _
  · exact .ok _
  · split
    · exact .ok _
    · split
      · exact untemplated_joinReal _ _
      · exact untemplated_joinReal _ _
      · exact .error (by simp)
    · split
      · exact untemplated_joinReal _ _
      · exact untemplated_joinReal _ _
      · exact .error (by simp)
    · exact .error (by simp)

theorem untemplated_realNumbers (a b : Value) : Untemplated (realNumbers a b) := by
  unfold realNumbers
  split
  · exact .error (by simp)
  · exact .error (by simp)
  · exact untemplated_numbers _ _

theorem untemplated_ofArithmetic (r : Except ArithmeticFault Value) :
    Untemplated (ofArithmetic r) := by
  cases r with
  | error e => cases e <;> exact .error (by simp [ArithmeticFault.toOperatorFault])
  | ok v => exact .ok v

theorem untemplated_repeatText (t : Text) (n : Int) : Untemplated (repeatText t n) := by
  unfold repeatText
  split
  · exact .error (by simp)
  · split <;> exact .ok _

theorem untemplated_div (a b : Value) : Untemplated (div a b) := by
  unfold div
  split
  · exact (untemplated_numbers a b).of_eq_error ‹_›
  · unfold divInt
    split
    · exact .error (by simp)
    · dsimp only
      split
      · exact .error (by simp)
      · exact .ok _
  · split
    · exact .error (by simp)
    · exact .ok _
  · exact untemplated_ofArithmetic _

theorem untemplated_floorDiv (a b : Value) : Untemplated (floorDiv a b) := by
  unfold floorDiv
  split
  · exact (untemplated_realNumbers a b).of_eq_error ‹_›
  · split
    · exact .error (by simp)
    · exact .ok _
  · split
    · exact .error (by simp)
    · exact .ok _
  · exact .error (by simp)

theorem untemplated_powReal (x y : Float) : Untemplated (powReal x y) := by
  unfold powReal
  split
  · rename_i f _
    cases f <;> exact .error (by simp [ArithmeticFault.toOperatorFault])
  · exact .ok _
  · exact untemplated_ofArithmetic _

theorem untemplated_pow (a b : Value) : Untemplated (pow a b) := by
  unfold pow
  split
  · exact (untemplated_numbers a b).of_eq_error ‹_›
  · unfold powInt
    split
    · exact .ok _
    · split
      · exact untemplated_powReal _ _
      · exact (untemplated_realOfInt _).of_eq_error ‹_›
      · exact (untemplated_realOfInt _).of_eq_error ‹_›
  · exact untemplated_powReal _ _
  · exact untemplated_ofArithmetic _

theorem untemplated_order (r : Relation) (a b : Value) : Untemplated (order r a b) := by
  unfold order
  split
  · exact .ok _
  · exact .error (by simp)

theorem untemplated_mod {a : Value} (ha : ∀ t, a ≠ .text t) (b : Value) :
    Untemplated (mod a b) := by
  unfold mod
  split
  · exact absurd rfl (ha _)
  · split
    · exact (untemplated_realNumbers a b).of_eq_error ‹_›
    · split
      · exact .error (by simp)
      · exact .ok _
    · split
      · exact .error (by simp)
      · exact .ok _
    · exact .error (by simp)

/-- Only a text on the left of `%` can have the fault of a template, and it is that of filling
it. -/
theorem mod_eq_template_iff {a b : Value} {f : TemplateFault} :
    mod a b = .error (.template f) ↔
      ∃ t, a = .text t ∧ fillTemplate t b = .error (.template f) := by
  by_cases ha : ∃ t, a = .text t
  · obtain ⟨t, rfl⟩ := ha
    show (fillTemplate t b).map Value.text = .error (.template f) ↔ _
    rcases h : fillTemplate t b with e | u
    · simp [Except.map, h]
    · simp [Except.map, h]
  · rw [not_exists] at ha
    exact ⟨fun h ↦ absurd h (untemplated_mod ha b f), fun ⟨t, ht, _⟩ ↦ absurd ht (ha t)⟩

/-- The fault of a template comes from `%` on a text that cannot be filled, and from nothing
else. -/
theorem apply_eq_template_iff {op : Operator} {a b : Value} {f : TemplateFault} :
    apply op a b = .error (.template f) ↔
      op = .mod ∧ ∃ t, a = .text t ∧ fillTemplate t b = .error (.template f) := by
  by_cases hop : op = .mod
  · subst hop
    rw [show apply .mod a b = mod a b from rfl, mod_eq_template_iff]
    exact ⟨fun h ↦ ⟨rfl, h⟩, fun h ↦ h.2⟩
  · refine ⟨fun h ↦ absurd h ?_, fun h ↦ absurd h.1 hop⟩
    have hplain : Untemplated (apply op a b) := by
      cases op with
      | add =>
        show Untemplated (add a b)
        unfold add
        split
        · exact .ok _
        · exact (untemplated_numbers _ _).map _
      | sub => exact (untemplated_numbers a b).map _
      | mul =>
        show Untemplated (mul a b)
        unfold mul
        split
        · exact untemplated_repeatText _ _
        · exact untemplated_repeatText _ _
        · exact (untemplated_numbers _ _).map _
      | div => exact untemplated_div a b
      | floorDiv => exact untemplated_floorDiv a b
      | mod => exact absurd rfl hop
      | pow => exact untemplated_pow a b
      | eq | ne => exact .ok _
      | lt | gt | le | ge => exact untemplated_order _ a b
    exact hplain f

end Value

end Sangria
