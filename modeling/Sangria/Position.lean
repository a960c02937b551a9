/-!
# Places in a text

A place is an offset into the text, counted in characters, or a position: a line and a column, both
counted from one. An offset may also be given from the end, as a negative number, or lie outside the
text; what is *before* it is then clamped to the text, while the column still follows the offset as
it was given.

The column is measured from the last newline before the offset, so it is one more than the number of
characters that stand between that newline and the offset.

A position is found in one walk through what lies before the offset (`approach`).
`Position.ofOffset_eq` and `lineBefore_eq` say what the walk finds.
-/

namespace Sangria

/-- A line and a column. Positions found in a text have both at least one. -/
structure Position where
  /-- The line, from one. -/
  line : Int
  /-- The column, from one. -/
  column : Int
  deriving DecidableEq, Repr

/-- How far an offset lies from the start of a text: a negative one counts from the end, and none
lies before the start. -/
def fromStart (text : List Char) (k : Int) : Nat :=
  if k < 0 then (text.length + k).toNat else k.toNat

/-- The part of a text that lies before an offset. -/
def before (text : List Char) (k : Int) : List Char :=
  text.take (fromStart text k)

/-- What a walk to a place in a text finds. -/
structure Approach where
  /-- The newlines before the place. -/
  newlines : Nat
  /-- The characters between the last of them and the place, nearest first. -/
  line : List Char
  /-- How far the place lies behind the end of the text. -/
  beyond : Nat

/-- Walk a number of characters into a text, with some newlines and a part of a line behind. -/
def approach (newlines : Nat) (line : List Char) : Nat → List Char → Approach
  | 0, _ => ⟨newlines, line, 0⟩
  | n + 1, [] => ⟨newlines, line, n + 1⟩
  | n + 1, c :: rest =>
    if c = '\n' then approach (newlines + 1) [] n rest else approach newlines (c :: line) n rest

/-- What an offset has before it. -/
def approachTo (text : List Char) (k : Int) : Approach :=
  approach 0 [] (fromStart text k) text

/-- The characters between the start of the line of an offset and the offset itself, nearest
first. -/
def lineBefore (text : List Char) (k : Int) : List Char :=
  (approachTo text k).line

/-- What stands behind a newline is not reached from in front of it. -/
theorem takeWhile_append_newline (front behind : List Char) :
    (front ++ '\n' :: behind).takeWhile (· ≠ '\n') = front.takeWhile (· ≠ '\n') := by
  induction front with
  | nil => simp
  | cons c rest ih =>
    by_cases h : c = '\n'
    · simp [h]
    · simpa [h] using ih

/-- A part of a line is kept whole. -/
theorem takeWhile_of_no_newline {line : List Char} (h : '\n' ∉ line) :
    line.takeWhile (· ≠ '\n') = line := by
  induction line with
  | nil => rfl
  | cons c rest ih =>
    have hc : c ≠ '\n' := fun hc ↦ h (hc ▸ List.mem_cons_self)
    have hr := ih fun hr ↦ h (List.mem_cons_of_mem c hr)
    simpa [hc] using hr

/-- A walk counts the newlines, keeps what lies behind the last of them, and counts what is
missing. -/
theorem approach_eq (newlines : Nat) {line : List Char} (h : '\n' ∉ line) (n : Nat)
    (text : List Char) :
    approach newlines line n text =
      ⟨newlines + (text.take n).count '\n',
        ((text.take n).reverse ++ line).takeWhile (· ≠ '\n'), n - (text.take n).length⟩ := by
  induction text generalizing newlines line n with
  | nil =>
    rw [List.take_nil, List.reverse_nil, List.nil_append, takeWhile_of_no_newline h]
    cases n <;> rfl
  | cons c rest ih =>
    cases n with
    | zero =>
      rw [List.take_zero, List.reverse_nil, List.nil_append, takeWhile_of_no_newline h]
      rfl
    | succ n =>
      by_cases hc : c = '\n'
      · subst hc
        rw [approach, if_pos rfl, ih (newlines + 1) List.not_mem_nil n, List.take_succ_cons,
          List.reverse_cons, List.append_assoc, List.singleton_append, takeWhile_append_newline]
        simp only [List.append_nil, List.count_cons_self, List.length_cons, Nat.add_sub_add_right,
          Nat.add_assoc, Nat.add_comm 1]
      · have hline : '\n' ∉ c :: line := by simp [h, Ne.symm hc]
        rw [approach, if_neg hc, ih newlines hline n]
        simp [hc]

/-- The line before an offset goes back to the last newline. -/
theorem lineBefore_eq (text : List Char) (k : Int) :
    lineBefore text k = (before text k).reverse.takeWhile (· ≠ '\n') := by
  rw [lineBefore, approachTo, approach_eq 0 List.not_mem_nil, List.append_nil, before]

namespace Position

/-- The position of an offset: one more than the newlines before it, and the distance from the last
of them. -/
def ofOffset (text : List Char) (k : Int) : Position :=
  let found := approachTo text k
  ⟨found.newlines + 1, k - fromStart text k + found.beyond + found.line.length + 1⟩

/-- The line is one more than the newlines before the offset; the column counts what stands before
it in its line, and what is missing of the text. -/
theorem ofOffset_eq (text : List Char) (k : Int) :
    ofOffset text k =
      ⟨(before text k).count '\n' + 1,
        k - (before text k).length + (lineBefore text k).length + 1⟩ := by
  have hlen : (before text k).length ≤ fromStart text k := by
    rw [before, List.length_take]
    exact Nat.min_le_left _ _
  rw [ofOffset, lineBefore, approachTo, approach_eq 0 List.not_mem_nil]
  simp only [before, Nat.zero_add, Position.mk.injEq, true_and] at hlen ⊢
  omega

/-- The position just behind the last character. -/
def ofEnd (text : List Char) : Position :=
  ofOffset text text.length

/-- A position in words. -/
def text (p : Position) : String :=
  s!"línea {p.line}, columna {p.column}"

end Position

/-- Something and where it starts. -/
structure Located (α : Type) where
  /-- Where it starts. -/
  position : Position
  /-- What stands there. -/
  item : α
  deriving DecidableEq, Repr

end Sangria
