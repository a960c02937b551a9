import Sangria.Proofs.Interpreter.Upholding

/-!
# Runs stay within well-formed trees

A run of a well-formed program meets well-formed trees only: besides the program itself it carries
out the blocks of functions, and those are parts of programs that were carried out before
(`Machine.WellFormed`). So no run of a well-formed program stops on a node of no known kind or on an
operator that the language lacks (`Machine.wellFormed_runWithin`); the only fault that is left is
that of a template.
-/

namespace Sangria

/-- The block of a function is well-formed. -/
def Value.WellFormed : Value → Prop
  | .function _ _ _ body => Block.wellFormed body = true
  | _ => True

/-- All functions that are bound have well-formed blocks. -/
def Bindings.WellFormed (b : Bindings) : Prop :=
  ∀ e ∈ b, e.2.WellFormed

/-- All functions that are bound at top level have well-formed blocks. -/
def Machine.WellFormed (m : Machine) : Prop :=
  m.globals.WellFormed

theorem wellFormedArgs_iff {es : List Expr} :
    Expr.wellFormed.wellFormedArgs es = true ↔ ∀ e ∈ es, e.wellFormed = true := by
  induction es with
  | nil => simp [Expr.wellFormed.wellFormedArgs]
  | cons e rest ih =>
    rw [Expr.wellFormed.wellFormedArgs, Bool.and_eq_true, ih, List.forall_mem_cons]

theorem Block.wellFormed_iff {b : Block} :
    Block.wellFormed b = true ↔ ∀ s ∈ b, s.item.wellFormed = true := by
  induction b with
  | nil => simp [Block.wellFormed]
  | cons s rest ih => rw [Block.wellFormed, Bool.and_eq_true, ih, List.forall_mem_cons]

namespace Rule

/-- Only well-formed trees are carried out, wherever they stand. -/
def wellFormed : Rule where
  expr e := e.wellFormed = true
  stmt s := s.wellFormed = true
  place _ := True
  function _ body := Block.wellFormed body = true
  fault f := ∃ t, f = .template t

theorem block_wellFormed {b : Block} (h : Block.wellFormed b = true) : wellFormed.block b :=
  fun s hs ↦ ⟨trivial, Block.wellFormed_iff.1 h s hs⟩

theorem lawful_wellFormed : wellFormed.Lawful where
  binary {op l r} h := by
    cases op with
    | known op =>
      have h : (l.wellFormed && r.wellFormed) = true := h
      rw [Bool.and_eq_true] at h
      exact ⟨h.1, h.2, by simp⟩
    | unknown symbol => exact absurd h Bool.false_ne_true
  and {l r} h := by
    have h : (l.wellFormed && r.wellFormed) = true := h
    rwa [Bool.and_eq_true] at h
  or {l r} h := by
    have h : (l.wellFormed && r.wellFormed) = true := h
    rwa [Bool.and_eq_true] at h
  not h := h
  signed {s e} h := by
    cases s with
    | known s => exact ⟨h, by simp⟩
    | unknown symbol => exact absurd h Bool.false_ne_true
  call h := wellFormedArgs_iff.1 h
  foreign h := absurd h Bool.false_ne_true
  template t := ⟨t, rfl⟩
  eval h := h
  assign {x op e} h := by
    cases op with
    | none => exact ⟨h, by simp⟩
    | some op =>
      cases op with
      | known op => exact ⟨h, by simp⟩
      | unknown symbol => exact absurd h Bool.false_ne_true
  define h _ := h
  branch {c body otherwise} h := by
    cases otherwise with
    | none =>
      have h : (c.wellFormed && Block.wellFormed body) = true := h
      rw [Bool.and_eq_true] at h
      exact ⟨h.1, block_wellFormed h.2, by simp⟩
    | some other =>
      have h : (c.wellFormed && Block.wellFormed body && Block.wellFormed other) = true := h
      rw [Bool.and_eq_true, Bool.and_eq_true] at h
      refine ⟨h.1.1, block_wellFormed h.1.2, fun b hb ↦ ?_⟩
      obtain rfl := Option.some.inj hb
      exact block_wellFormed h.2
  body h := block_wellFormed h

theorem value_wellFormed_iff {v : Value} : wellFormed.value v ↔ v.WellFormed := by
  cases v <;> exact Iff.rfl

theorem admits_wellFormed_iff {m : Machine} : wellFormed.Admits m ↔ m.WellFormed :=
  ⟨fun h e he ↦ value_wellFormed_iff.1 (h.globals e he),
    fun h ↦ ⟨fun e he ↦ value_wellFormed_iff.2 (h e he), trivial⟩⟩

end Rule

/-- A run of a well-formed program on a machine with well-formed functions leaves such a machine,
and its only fault is that of a template. -/
theorem Machine.wellFormed_runWithin (n : Nat) {m : Machine} (hm : m.WellFormed) {program : Block}
    (h : Block.wellFormed program = true) :
    (m.runWithin n program).2.WellFormed ∧
      ∀ f, (m.runWithin n program).1 = .error (.fault f) → ∃ t, f = .template t := by
  obtain ⟨hm', hends⟩ := Rule.lawful_wellFormed.runWithin n (Rule.admits_wellFormed_iff.2 hm)
    (Rule.block_wellFormed h)
  refine ⟨Rule.admits_wellFormed_iff.1 hm', fun f hf ↦ ?_⟩
  rw [hf] at hends
  exact hends

theorem Machine.wellFormed_run {m : Machine} (hm : m.WellFormed) {program : Block}
    (h : Block.wellFormed program = true) :
    (m.run program).2.WellFormed ∧
      ∀ f, (m.run program).1 = .error (.fault f) → ∃ t, f = .template t :=
  m.wellFormed_runWithin frameLimit hm h

end Sangria
