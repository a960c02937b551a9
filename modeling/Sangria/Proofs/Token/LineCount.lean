import Sangria.Proofs.Token.Asking
import Sangria.Proofs.Token.Tiling

/-!
# The line counter

A scanner counts lines where it takes a line end, and nowhere else; a position is found from an
offset alone, by counting the newlines before it. Both tell the same line, for a stream that was
asked for anything, also behind a fault or the end, and for every token that it hands out
(`TokenStream.line_of_requests`).

## What each part rests on

* `munch_count_newline` says how many newlines a token holds: a line end holds nothing else, and any
  other token holds none, because it is munched in front of a newline as it is at the end of a text.
* `Scanner.CountsLines.move` is the step of the counter: it is right behind a piece if the newlines
  of the piece are added. What is announced has the place of the lexeme or of the end it stands for.
* `TokenStream.CountsLines` is kept by reading and by handing out, and so by all calls
  (`TokenStream.Kept`).
-/

namespace Sangria

/-! ### Newlines in a token -/

/-- A token that is no line end holds no newline. -/
theorem not_mem_of_munch {c : Char} {rest : List Char} {k : Kind} {n : Nat}
    (h : munch (c :: rest) = some (k, n)) (hk : k ≠ .newline) : '\n' ∉ (c :: rest).take n := by
  intro hmem
  have hc : c ≠ '\n' := by
    rintro rfl
    have hkind := (munch_length h).2.2
    rw [if_pos rfl] at hkind
    exact hk hkind
  obtain ⟨front, behind, hsplit⟩ := List.append_of_mem hmem
  rcases front with - | ⟨c', front⟩
  · -- the newline is not the first character
    cases n with
    | zero => exact absurd hmem List.not_mem_nil
    | succ n => exact hc (List.cons.inj hsplit).1
  · -- the token would end in front of it
    have hwhole : c' :: front ++ '\n' :: (behind ++ (c :: rest).drop n) = c :: rest := by
      rw [← List.cons_append, ← List.append_assoc, ← hsplit, List.take_append_drop]
    obtain rfl : c' = c := (List.cons.inj hwhole).1
    rw [← hwhole, munch_append_newline _ hc] at h
    have hle := (munch_length h).2.1
    have hlength := congrArg List.length hsplit
    rw [List.length_take, List.length_append] at hlength
    simp only [List.length_cons] at hlength hle
    omega

/-- A line end holds newlines only, and any other token holds none. -/
theorem munch_count_newline {c : Char} {rest : List Char} {k : Kind} {n : Nat}
    (h : munch (c :: rest) = some (k, n)) :
    ((c :: rest).take n).count '\n' = if k = .newline then n else 0 := by
  split
  · rename_i hk
    obtain rfl := hk
    have hkind := (munch_length h).2.2
    split at hkind
    · rename_i hc
      rw [munch, if_pos hc] at h
      obtain ⟨-, rfl⟩ := Prod.mk.inj (Option.some.inj h)
      rw [← List.prefix_iff_eq_take.1 (List.takeWhile_prefix _), List.count_eq_length]
      exact fun d hd ↦ by simpa [eq_comm] using List.mem_takeWhile_imp hd
    · exact absurd hkind (by decide)
  · rename_i hk
    exact List.count_eq_zero.2 (not_mem_of_munch h hk)

/-! ### Scanners -/

theorem newlinesBefore_add (text : List Char) (k n : Nat) :
    newlinesBefore text (k + n) = newlinesBefore text k + ((text.drop k).take n).count '\n' := by
  rw [newlinesBefore, newlinesBefore, List.take_add, List.count_append]

/-- A lexeme of a text tells the line that it starts in. -/
def Lexeme.CountsLines (text : List Char) (t : Lexeme) : Prop :=
  t.line = newlinesBefore text t.offset + 1

/-- A scanner stands in a text and tells its line there. -/
structure Scanner.CountsLines (text : List Char) (s : Scanner) : Prop where
  /-- It reads on from its offset. -/
  rest : s.rest = text.drop s.offset
  /-- Its line is one more than the newlines before that. -/
  line : s.line = newlinesBefore text s.offset + 1

namespace Scanner.CountsLines

variable {text : List Char} {s next : Scanner}

/-- A scanner goes on by a piece, and counts the newlines in it. -/
theorem move (h : s.CountsLines text) {n line : Nat}
    (hline : line = s.line + (s.rest.take n).count '\n') :
    CountsLines text ⟨s.rest.drop n, s.offset + n, line⟩ where
  rest := by rw [h.rest, List.drop_drop]
  line := by
    show line = newlinesBefore text (s.offset + n) + 1
    rw [hline, h.rest, h.line, newlinesBefore_add]
    omega

/-- There is no newline in a gap. -/
theorem skip_gap (h : s.CountsLines text) : (s.skip (gap s.rest)).CountsLines text :=
  h.move (by rw [List.count_eq_zero.2 (Filler.of_gap s.rest).2, Nat.add_zero])

theorem of_lexeme (h : s.CountsLines text) {t : Lexeme} (hscan : s.scan = .lexeme t next) :
    t.CountsLines text ∧ next.CountsLines text := by
  obtain ⟨c, rest, k, n, hrest, hmunch, rfl, rfl⟩ := exists_of_scan hscan
  have hgap := h.skip_gap
  have hline := congrArg (s.line + ·) (munch_count_newline hmunch).symm
  rw [← hrest] at hline ⊢
  exact ⟨hgap.line, hgap.move hline⟩

theorem of_illegal (h : s.CountsLines text) {c : Char} (hscan : s.scan = .illegal c next) :
    next.CountsLines text := by
  obtain ⟨-, -, rfl⟩ := exists_of_illegal hscan
  exact h.skip_gap

/-- The end has a line too, also one character behind it. -/
theorem of_finished (h : s.CountsLines text) (hscan : s.scan = .finished next) :
    next.CountsLines text ∧ next.line = newlinesBefore text text.length + 1 := by
  have hend := drop_gap_of_finished hscan
  have hgap := h.skip_gap
  obtain rfl : next = (s.skip (gap s.rest)).skip 1 := by
    simpa [scan, skip, hend, eq_comm] using hscan
  refine ⟨hgap.move ?_, ?_⟩
  · rw [skip, hend]
    rfl
  · have hlength : text.length ≤ (s.skip (gap s.rest)).offset := by
      rw [← List.drop_eq_nil_iff, ← hgap.rest]
      exact hend
    have hline := hgap.line
    rw [newlinesBefore, List.take_of_length_le hlength] at hline
    rw [newlinesBefore, List.take_length]
    exact hline

end Scanner.CountsLines

/-! ### Streams -/

/-- A stream tells its line, and so do the tokens that it holds. -/
structure TokenStream.CountsLines (s : TokenStream) : Prop where
  /-- The line of the stream. -/
  scanner : s.scanner.CountsLines s.text
  /-- The lines of the tokens. -/
  queue : ∀ t, .ok t ∈ s.queue → t.CountsLines s.text

namespace TokenStream

theorem countsLines_ofText (text : List Char) : (ofText text).CountsLines :=
  ⟨⟨rfl, rfl⟩, fun _ h ↦ absurd h List.not_mem_nil⟩

namespace CountsLines

/-- Reading adds tokens where they stand in the source. -/
theorem read {s : TokenStream} (h : s.CountsLines) : s.read.CountsLines := by
  have held {behind : List Delivery} (hbehind : ∀ u, .ok u ∈ behind → Lexeme.CountsLines s.text u)
      (u : Lexeme) (hu : .ok u ∈ s.queue ++ behind) : u.CountsLines s.text :=
    (List.mem_append.1 hu).elim (h.queue u) (hbehind u)
  have of_tokens {tokens : List Lexeme} (htokens : ∀ u ∈ tokens, u.CountsLines s.text)
      (u : Lexeme) (hu : .ok u ∈ tokens.map (Except.ok : Lexeme → Delivery)) :
      u.CountsLines s.text := by
    obtain ⟨u', hu', heq⟩ := List.mem_map.1 hu
    exact Except.ok.inj heq ▸ htokens u' hu'
  unfold TokenStream.read
  split
  · rename_i t next hscan
    obtain ⟨ht, hnext⟩ := h.scanner.of_lexeme hscan
    have htokens : ∀ u ∈ (s.layout.take s.text t).1, u.CountsLines s.text := by
      intro u hu
      rcases Layout.eq_or_unwritten_of_mem_take hu with rfl | rfl | rfl <;> exact ht
    dsimp only
    split
    · rename_i htake
      rw [htake] at htokens
      exact ⟨hnext, held (of_tokens htokens)⟩
    · rename_i htake
      rw [htake] at htokens
      refine ⟨hnext, fun u hu ↦ held (of_tokens htokens) u ?_⟩
      -- a fault is no token
      exact (List.mem_append.1 hu).resolve_right (by simp)
  · rename_i hscan
    exact ⟨h.scanner.of_illegal hscan, held (by simp)⟩
  · rename_i next hscan
    obtain ⟨hnext, hline⟩ := h.scanner.of_finished hscan
    refine ⟨hnext, held (of_tokens fun u hu ↦ ?_)⟩
    rcases Layout.eq_of_mem_close hu with rfl | rfl <;> exact hline

theorem kept : Kept CountsLines where
  read _ _ h := h.read
  drop _ _ h := ⟨h.scanner, fun t ht ↦ h.queue t (List.mem_of_mem_drop ht)⟩

/-- All tokens that a stream still hands out tell their lines. -/
theorem of_mem_drain {s : TokenStream} (h : s.CountsLines) {u : Lexeme}
    (hu : .ok u ∈ s.drain.1) : u.CountsLines s.text := by
  induction hn : s.reads using Nat.strongRecOn generalizing s with
  | ind n ih =>
    cases hf : s.finished with
    | true =>
      rw [drain_of_finished hf] at hu
      exact h.queue u hu
    | false =>
      rw [drain_of_not_finished hf] at hu
      have hread : (TokenStream.read { s with queue := [] }).CountsLines :=
        CountsLines.read ⟨h.scanner, fun _ h ↦ absurd h List.not_mem_nil⟩
      have htext : (TokenStream.read { s with queue := [] }).text = s.text := read_text _
      rcases List.mem_append.1 hu with hu | hu
      · exact h.queue u hu
      · rw [← htext]
        rcases read_finished_or_reads_lt { s with queue := [] } with hover | hlt
        · rw [drain_of_finished hover] at hu
          exact hread.queue u hu
        · exact ih _ (hn ▸ hlt) hread hu rfl

end CountsLines

/-- The tokens and the fault that a call takes off a stream, as they were cut from the source. -/
def taken (s : TokenStream) : Call → List Delivery
  | .token | .next => s.pull.1.toList
  | .all => s.drain.1

theorem pull_eq_head? (s : TokenStream) : s.pull.1 = s.drain.1.head? := by
  rw [drain_pull]
  rcases s.pull with ⟨- | d, s'⟩ <;> rfl

/-- What a call hands out is what it takes. -/
theorem handed_perform {s : TokenStream} (h : s.Orderly) (c : Call) :
    (s.perform c).1.handed s.text = row s.text (s.taken c) := by
  have hcourse := h.course_drain
  rw [(perform_eq h c).1]
  cases c with
  | token =>
    rw [taken, pull_eq_head?]
    rfl
  | next =>
    rw [taken, pull_eq_head?]
    generalize s.drain.1 = ds at hcourse
    cases hcourse with
    | nil => rfl
    | fault d => rfl
    | token kind _ => exact Reply.handed_next s.text kind
  | all => exact handed_told hcourse s.text

theorem mem_drain_of_mem_taken {s : TokenStream} {c : Call} {d : Delivery} (h : d ∈ s.taken c) :
    d ∈ s.drain.1 := by
  cases c with
  | all => exact h
  | _ =>
    rw [taken, pull_eq_head?, Option.mem_toList] at h
    exact List.mem_of_mem_head? h

/-- However a stream of tokens is asked, its line is one more than the newlines before its offset,
and every token that a call hands out tells the line of its position. -/
theorem line_of_requests (requests : List Request) :
    let s := empty.after requests
    s.scanner.line = 1 + (s.text.take s.scanner.offset).count '\n' ∧
      ∀ c : Call, (s.perform c).1.handed s.text = row s.text (s.taken c) ∧
        ∀ u, .ok u ∈ s.taken c → (u.line : Int) = (Position.ofOffset s.text u.offset).line := by
  have hempty : empty.Orderly ∧ empty.CountsLines :=
    ⟨⟨.nil, fun _ h ↦ absurd h List.not_mem_nil⟩, ⟨⟨rfl, rfl⟩, fun _ h ↦ absurd h List.not_mem_nil⟩⟩
  intro s
  have horderly : s.Orderly := Orderly.kept.after orderly_ofText hempty.1 requests
  have hlines : s.CountsLines := CountsLines.kept.after countsLines_ofText hempty.2 requests
  refine ⟨hlines.scanner.line.trans (Nat.add_comm _ _), fun c ↦
    ⟨handed_perform horderly c, fun u hu ↦ ?_⟩⟩
  have hline : u.line = newlinesBefore s.text u.offset + 1 :=
    hlines.of_mem_drain (mem_drain_of_mem_taken hu)
  rw [Position.ofOffset_line, hline]
  rfl

/-- The end of a block tells the line of the word behind it, which stands behind a comment and two
line ends. Behind a fault a stream has a line too, and at the end of the source, though it then
stands one character behind that. -/
theorem line_of_requests_dedent :
    let s := empty.after [.input "if a:\n  b\n # c\n\nd", .call .next]
    let dedent : Lexeme := ⟨.dedent, "", 5, 16⟩
    let failed := empty.after [.input "\n $", .call .next, .call .token]
    let ended := empty.after [.input "a\n\n", .call .next, .call .next, .call .token]
    (.ok dedent ∈ s.taken .all ∧
      (dedent.line : Int) = (Position.ofOffset s.text dedent.offset).line) ∧
    (failed.scanner.line = 2 ∧ failed.scanner.offset = 2 ∧
      failed.scanner.line = 1 + (failed.text.take failed.scanner.offset).count '\n') ∧
    ended.scanner.line = 3 ∧ ended.scanner.offset = 4 ∧
      ended.scanner.line = 1 + (ended.text.take ended.scanner.offset).count '\n' := by
  intro s dedent failed ended
  have htaken : (empty.after [.input "if a:\n  b\n # c\n\nd", .call .next]).drain.1[6]? =
      some (.ok ⟨.dedent, "", 5, 16⟩) := by rfl
  have hdedent : .ok dedent ∈ s.taken .all := List.mem_of_getElem? htaken
  refine ⟨⟨hdedent, ((line_of_requests [_, _]).2 .all).2 dedent hdedent⟩, ⟨by rfl, by rfl, ?_⟩,
    by rfl, by rfl, ?_⟩
  · exact (line_of_requests [.input "\n $", .call .next, .call .token]).1
  · exact (line_of_requests [.input "a\n\n", .call .next, .call .next, .call .token]).1

end TokenStream

end Sangria
