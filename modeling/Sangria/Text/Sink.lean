import Sangria.Text.CodePoint

/-!
# Streams that take text

A stream keeps the texts that are written on it as they are, or it encodes them in UTF-8, which has
no place for surrogates. Such a stream refuses a text that holds one, and nothing of that text is
written.
-/

namespace Sangria

/-- Surrogates side by side in a text. -/
structure SurrogateRun where
  /-- The first of them. -/
  first : CodePoint
  /-- How many code points stand before it. -/
  offset : Nat
  /-- How many surrogates there are. -/
  count : Nat
  deriving DecidableEq, Repr

/-- The first surrogates in a text, up to the first other code point behind them. -/
def Text.surrogates? (t : Text) : Option SurrogateRun :=
  let front := t.takeWhile (!·.isSurrogate)
  match (t.drop front.length).takeWhile (·.isSurrogate) with
  | p :: rest => some ⟨p, front.length, rest.length + 1⟩
  | [] => none

/-- Exactly texts without surrogates hold none. -/
theorem Text.surrogates?_eq_none_iff {t : Text} :
    t.surrogates? = none ↔ ∀ p ∈ t, p.isSurrogate = false := by
  induction t with
  | nil => simp [surrogates?]
  | cons p rest ih =>
    cases hp : p.isSurrogate with
    | true => simp [surrogates?, hp]
    | false =>
      have hrest : surrogates? (p :: rest) = none ↔ surrogates? rest = none := by
        unfold surrogates?
        simp only [List.takeWhile_cons, hp, Bool.not_false, if_true, List.length_cons,
          List.drop_succ_cons]
        split <;> simp_all
      rw [hrest, ih, List.forall_mem_cons]
      exact (and_iff_right hp).symm

/-- A stream that text is written on. -/
inductive Sink
  /-- It keeps text as it is. -/
  | memory
  /-- It encodes text in UTF-8. -/
  | utf8
  deriving DecidableEq, Repr

namespace Sink

/-- Why a text cannot be written on a stream. -/
def refusal? : Sink → Text → Option SurrogateRun
  | .memory, _ => none
  | .utf8, t => t.surrogates?

/-- All texts can be written on a stream that keeps them, and on another those without surrogates. -/
theorem refusal?_eq_none_iff {s : Sink} {t : Text} :
    s.refusal? t = none ↔ (s = .utf8 → ∀ p ∈ t, p.isSurrogate = false) := by
  cases s with
  | memory => simp [refusal?]
  | utf8 => simp [refusal?, Text.surrogates?_eq_none_iff]

/-- Write texts one after the other, up to the first that is refused. The answer is what is written,
and why no more is. -/
def write (s : Sink) : List Text → Text × Option SurrogateRun
  | [] => ([], none)
  | t :: rest =>
    match s.refusal? t with
    | some run => ([], some run)
    | none => (t ++ (s.write rest).1, (s.write rest).2)

end Sink

end Sangria
