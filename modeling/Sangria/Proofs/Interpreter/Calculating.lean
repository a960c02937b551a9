import Sangria.Proofs.Interpreter.Running

/-!
# Calculating with integers

An expression over integers (`IntegerExpr`) is made of literals, signs and the operators that keep
integers integers. Which integer it is, if any, is a matter of arithmetic (`IntegerExpr.Computes`);
a quotient rounded down and its remainder are the two numbers that division with remainder asks for.

With as many frames as its nesting takes, an expression is evaluated to its integer, unless some
divisor is zero, and then evaluation stops with that error; either leaves the machine as it is
(`IntegerExpr.settles_evaluate`). It is enough to know this of one operator (`apply_integers`).
-/

namespace Sangria

/-! ### Operators on integers -/

/-- An operator that makes an integer of two integers. -/
inductive IntegerOperator
  /-- Sum. -/
  | add
  /-- Difference. -/
  | sub
  /-- Product. -/
  | mul
  /-- Quotient rounded down. -/
  | floorDiv
  /-- What rounding down leaves. -/
  | mod
  /-- Power. -/
  | pow
  deriving DecidableEq, Repr

/-- Whether a number can be left by division: it lies between zero and the divisor, on the side of
the divisor. -/
def IsRemainder (b r : Int) : Prop :=
  0 ≤ r ∧ r < b ∨ b < r ∧ r ≤ 0

namespace IntegerOperator

/-- The operator of the language. -/
def operator : IntegerOperator → Operator
  | add => .add
  | sub => .sub
  | mul => .mul
  | floorDiv => .floorDiv
  | mod => .mod
  | pow => .pow

/-- Whether an operator divides by its right operand. -/
def divides : IntegerOperator → Bool
  | floorDiv | mod => true
  | _ => false

/-- What an operator makes of two integers. -/
def Makes : IntegerOperator → Int → Int → Int → Prop
  | add, a, b, c => c = a + b
  | sub, a, b, c => c = a - b
  | mul, a, b, c => c = a * b
  | floorDiv, a, b, q => ∃ r, a = b * q + r ∧ IsRemainder b r
  | mod, a, b, r => ∃ q, a = b * q + r ∧ IsRemainder b r
  | pow, a, b, c => 0 ≤ b ∧ c = a ^ b.toNat

end IntegerOperator

/-- Division with remainder has one quotient and one remainder. -/
theorem fdiv_fmod_iff {a b q r : Int} (hb : b ≠ 0) :
    a = b * q + r ∧ IsRemainder b r ↔ q = a.fdiv b ∧ r = a.fmod b := by
  rw [eq_comm (a := q), eq_comm (a := r), IsRemainder]
  rcases Int.lt_or_gt_of_ne hb with hneg | hpos
  · rw [Int.fdiv_fmod_unique' hneg]
    omega
  · rw [Int.fdiv_fmod_unique hpos]
    omega

theorem not_isRemainder_zero (r : Int) : ¬ IsRemainder 0 r := by
  rw [IsRemainder]
  omega

namespace IntegerOperator

theorem makes_floorDiv_iff {a b q : Int} (hb : b ≠ 0) :
    floorDiv.Makes a b q ↔ q = a.fdiv b := by
  refine ⟨fun ⟨r, h⟩ ↦ ((fdiv_fmod_iff hb).1 h).1, fun h ↦ ⟨_, (fdiv_fmod_iff hb).2 ⟨h, rfl⟩⟩⟩

theorem makes_mod_iff {a b r : Int} (hb : b ≠ 0) : mod.Makes a b r ↔ r = a.fmod b := by
  refine ⟨fun ⟨q, h⟩ ↦ ((fdiv_fmod_iff hb).1 h).2, fun h ↦ ⟨_, (fdiv_fmod_iff hb).2 ⟨rfl, h⟩⟩⟩

/-- No operator divides by zero. -/
theorem Makes.ne_zero {op : IntegerOperator} {a b c : Int} (h : op.Makes a b c)
    (hop : op.divides = true) : b ≠ 0 := by
  rintro rfl
  cases op with
  | floorDiv =>
    obtain ⟨r, -, hr⟩ := h
    exact not_isRemainder_zero r hr
  | mod =>
    obtain ⟨q, -, hr⟩ := h
    exact not_isRemainder_zero c hr
  | _ => exact absurd hop (by decide)

/-- An operator makes one integer at most of two. -/
theorem Makes.unique {op : IntegerOperator} {a b c d : Int} (h : op.Makes a b c)
    (h' : op.Makes a b d) : c = d := by
  cases op with
  | add | sub | mul => exact Eq.trans h (Eq.symm h')
  | floorDiv =>
    have hb := h.ne_zero rfl
    exact ((makes_floorDiv_iff hb).1 h).trans ((makes_floorDiv_iff hb).1 h').symm
  | mod =>
    have hb := h.ne_zero rfl
    exact ((makes_mod_iff hb).1 h).trans ((makes_mod_iff hb).1 h').symm
  | pow => exact h.2.trans h'.2.symm

end IntegerOperator

/-- The interpreter makes of two integers what the operator makes of them, or divides by zero. -/
theorem apply_integers (op : IntegerOperator) (a b : Int) (hpow : op = .pow → 0 ≤ b) :
    (∃ c, op.Makes a b c ∧ Value.apply op.operator (.int a) (.int b) = .ok (.int c)) ∨
      (op.divides = true ∧ b = 0 ∧
        Value.apply op.operator (.int a) (.int b) = .error .divisionByZero) := by
  cases op with
  | add | sub | mul => exact .inl ⟨_, rfl, rfl⟩
  | floorDiv =>
    by_cases hb : b = 0
    · exact .inr ⟨rfl, hb, if_pos hb⟩
    · exact .inl ⟨_, (IntegerOperator.makes_floorDiv_iff hb).2 rfl, if_neg hb⟩
  | mod =>
    by_cases hb : b = 0
    · exact .inr ⟨rfl, hb, if_pos hb⟩
    · exact .inl ⟨_, (IntegerOperator.makes_mod_iff hb).2 rfl, if_neg hb⟩
  | pow =>
    have hb := hpow rfl
    refine .inl ⟨_, ⟨hb, rfl⟩, ?_⟩
    rw [← Value.intPower_eq]
    exact if_pos hb

/-- Nothing is out of range among integers. -/
theorem rangeCheck?_integers (op : IntegerOperator) (a b : Int) (hpow : op = .pow → 0 ≤ b) :
    Value.rangeCheck? op.operator (.int a) (.int b) = none := by
  cases op with
  | pow => exact if_pos (hpow rfl)
  | _ => rfl

/-! ### Expressions -/

/-- An expression over integers. -/
inductive IntegerExpr
  /-- A number written down. -/
  | literal (n : Nat)
  /-- A sign before an expression. -/
  | signed (s : Sign) (e : IntegerExpr)
  /-- An operator between two expressions. -/
  | binary (op : IntegerOperator) (l r : IntegerExpr)
  deriving DecidableEq, Repr

/-- What a sign makes of an integer. -/
def Sign.applied : Sign → Int → Int
  | neg, v => -v
  | pos, v => v

namespace IntegerExpr

/-- The expression of the language. -/
def toExpr : IntegerExpr → Expr
  | literal n => .literal (.int n)
  | signed s e => .signed (.known s) e.toExpr
  | binary op l r => .binary (.known op.operator) l.toExpr r.toExpr

/-- How deeply an expression nests. -/
def height : IntegerExpr → Nat
  | literal _ => 1
  | signed _ e => e.height + 1
  | binary _ l r => max l.height r.height + 1

/-- An expression and all those inside it. -/
def parts : IntegerExpr → List IntegerExpr
  | literal n => [literal n]
  | signed s e => signed s e :: e.parts
  | binary op l r => binary op l r :: (l.parts ++ r.parts)

/-- The integer that an expression stands for, if it stands for one. -/
inductive Computes : IntegerExpr → Int → Prop
  /-- A literal stands for its number. -/
  | literal (n : Nat) : Computes (literal n) n
  /-- A sign is applied to what stands behind it. -/
  | signed (s : Sign) {e : IntegerExpr} {v : Int} (h : Computes e v) :
      Computes (signed s e) (s.applied v)
  /-- An operator is applied to its operands. -/
  | binary {op : IntegerOperator} {l r : IntegerExpr} {a b c : Int} (left : Computes l a)
      (right : Computes r b) (makes : op.Makes a b c) : Computes (binary op l r) c

/-- Some divisor in an expression is zero. -/
def DividesByZero (e : IntegerExpr) : Prop :=
  ∃ op l r, binary op l r ∈ e.parts ∧ op.divides = true ∧ r.Computes 0

/-- No exponent in an expression is negative. -/
def ExponentsNonneg (e : IntegerExpr) : Prop :=
  ∀ l r, binary .pow l r ∈ e.parts → ∀ k, r.Computes k → 0 ≤ k

variable {e l r : IntegerExpr} {op : IntegerOperator} {v w : Int}

theorem self_mem_parts (e : IntegerExpr) : e ∈ e.parts := by
  cases e <;> exact List.mem_cons_self

theorem parts_left (op : IntegerOperator) (l r : IntegerExpr) : l.parts ⊆ (binary op l r).parts :=
  List.subset_cons_of_subset _ (List.subset_append_left _ _)

theorem parts_right (op : IntegerOperator) (l r : IntegerExpr) : r.parts ⊆ (binary op l r).parts :=
  List.subset_cons_of_subset _ (List.subset_append_right _ _)

theorem ExponentsNonneg.mono {e' : IntegerExpr} (h : e.ExponentsNonneg)
    (hparts : e'.parts ⊆ e.parts) : e'.ExponentsNonneg :=
  fun l r hmem ↦ h l r (hparts hmem)

theorem DividesByZero.mono {e' : IntegerExpr} (h : e'.DividesByZero)
    (hparts : e'.parts ⊆ e.parts) : e.DividesByZero := by
  obtain ⟨op, l, r, hmem, hop, hzero⟩ := h
  exact ⟨op, l, r, hparts hmem, hop, hzero⟩

/-- An expression stands for one integer at most. -/
theorem Computes.unique (h : e.Computes v) (h' : e.Computes w) : v = w := by
  induction h generalizing w with
  | literal n =>
    obtain ⟨⟩ := h'
    rfl
  | signed s _ ih =>
    obtain - | ⟨-, h'⟩ := h'
    rw [ih h']
  | binary _ _ hmakes ihl ihr =>
    obtain - | - | ⟨hl, hr, hmakes'⟩ := h'
    obtain rfl := ihl hl
    obtain rfl := ihr hr
    exact hmakes.unique hmakes'

/-- Where an expression stands for an integer, so does all that is inside it. -/
theorem Computes.exists_part (h : e.Computes v) : ∀ p ∈ e.parts, ∃ w, p.Computes w := by
  induction h with
  | literal n => exact List.forall_mem_singleton.2 ⟨_, .literal n⟩
  | signed s h ih => exact List.forall_mem_cons.2 ⟨⟨_, .signed s h⟩, ih⟩
  | binary hl hr hmakes ihl ihr =>
    exact List.forall_mem_cons.2 ⟨⟨_, .binary hl hr hmakes⟩, List.forall_mem_append.2 ⟨ihl, ihr⟩⟩

theorem Computes.not_dividesByZero (h : e.Computes v) : ¬ e.DividesByZero := by
  rintro ⟨op, l, r, hmem, hop, hzero⟩
  obtain ⟨w, - | - | ⟨hl, hr, hmakes⟩⟩ := h.exists_part _ hmem
  exact hmakes.ne_zero hop (hr.unique hzero)

/-! ### Evaluation -/

/-- What the evaluation of an expression comes to: its integer, or the error of a divisor that is
zero. The machine stays as it is. -/
inductive Settles (e : IntegerExpr) (m : Machine) : Except Stop Value × Machine → Prop
  /-- The integer. -/
  | value {v : Int} (h : e.Computes v) : Settles e m (.ok (.int v), m)
  /-- The error. -/
  | zero (h : e.DividesByZero) : Settles e m (.error (.error .divisionByZero m.position), m)

open Evaluation

theorem settles_signed (s : Sign) {n : Nat} {scope : Scope} {m : Machine}
    (h : e.Settles m ((evaluate n scope e.toExpr).run m)) :
    (signed s e).Settles m ((evaluate (n + 2) scope (signed s e).toExpr).run m) := by
  rw [toExpr, evaluate_signed]
  generalize hrun : (evaluate n scope e.toExpr).run m = result at h
  cases h with
  | @value v h =>
    have hsign : (Evaluation.signed (.known s) (.int v)).run m = (.ok (.int (s.applied v)), m) := by
      cases s <;> rfl
    rw [run_bind_of_ok hrun, hsign]
    exact .value (.signed s h)
  | zero h =>
    rw [run_bind_of_error hrun]
    exact .zero (h.mono (List.subset_cons_self _ _))

/-- An operator on integers makes one of them or divides by zero. -/
theorem run_operate_integers (op : IntegerOperator) (a b : Int) (hpow : op = .pow → 0 ≤ b)
    (m : Machine) :
    (∃ c, op.Makes a b c ∧
      (operate (.known op.operator) (.int a) (.int b)).run m = (.ok (.int c), m)) ∨
    (op.divides = true ∧ b = 0 ∧ (operate (.known op.operator) (.int a) (.int b)).run m =
      (.error (.error .divisionByZero m.position), m)) := by
  have hremember : (remember (Value.rangeCheck? op.operator (.int a) (.int b))).run m =
      (.ok (), m) := by
    rw [rangeCheck?_integers op a b hpow]
    rfl
  rcases apply_integers op a b hpow with ⟨c, hc, happly⟩ | ⟨hop, hb, happly⟩
  · refine .inl ⟨c, hc, ?_⟩
    rw [operate, run_bind_of_ok hremember, happly]
    rfl
  · refine .inr ⟨hop, hb, ?_⟩
    rw [operate, run_bind_of_ok hremember, happly]
    rfl

theorem settles_binary {n : Nat} {scope : Scope} {m : Machine}
    (hl : l.Settles m ((evaluate n scope l.toExpr).run m))
    (hr : r.Settles m ((evaluate n scope r.toExpr).run m))
    (hpow : op = .pow → ∀ k, r.Computes k → 0 ≤ k) :
    (binary op l r).Settles m ((evaluate (n + 2) scope (binary op l r).toExpr).run m) := by
  rw [toExpr, evaluate_binary]
  generalize hrunl : (evaluate n scope l.toExpr).run m = resultl at hl
  cases hl with
  | zero hl =>
    rw [run_bind_of_error hrunl]
    exact .zero (hl.mono (parts_left op l r))
  | @value a hl =>
    rw [run_bind_of_ok hrunl]
    generalize hrunr : (evaluate n scope r.toExpr).run m = resultr at hr
    cases hr with
    | zero hr =>
      rw [run_bind_of_error hrunr]
      exact .zero (hr.mono (parts_right op l r))
    | @value b hr =>
      rw [run_bind_of_ok hrunr]
      rcases run_operate_integers op a b (fun hop ↦ hpow hop b hr) m with
        ⟨c, hc, hrun⟩ | ⟨hop, rfl, hrun⟩
      · rw [hrun]
        exact .value (.binary hl hr hc)
      · rw [hrun]
        exact .zero ⟨op, l, r, self_mem_parts _, hop, hr⟩

/-- With two frames for each level of its nesting, an expression is evaluated to its integer, or
stops with the error of a divisor that is zero. -/
theorem settles_evaluate (h : e.ExponentsNonneg) {n : Nat} (hn : 2 * e.height ≤ n) (scope : Scope)
    (m : Machine) : e.Settles m ((evaluate n scope e.toExpr).run m) := by
  induction e generalizing n with
  | literal k =>
    obtain ⟨n, rfl⟩ := Nat.exists_eq_add_of_le' hn
    exact .value (.literal k)
  | signed s e ih =>
    rw [height] at hn
    obtain ⟨n, rfl⟩ : ∃ n', n = n' + 2 := ⟨n - 2, by omega⟩
    exact settles_signed s (ih (h.mono (List.subset_cons_self _ _)) (by omega))
  | binary op l r ihl ihr =>
    rw [height] at hn
    obtain ⟨n, rfl⟩ : ∃ n', n = n' + 2 := ⟨n - 2, by omega⟩
    refine settles_binary (ihl (h.mono (parts_left op l r)) (by omega))
      (ihr (h.mono (parts_right op l r)) (by omega)) ?_
    rintro rfl
    exact h l r (self_mem_parts _)

end IntegerExpr

end Sangria
