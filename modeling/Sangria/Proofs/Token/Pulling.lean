import Sangria.Proofs.Token.Shape

/-!
# Tokens taken one at a time

A stream is taken as a whole, or one token after the other, and both come to the same: the token
that is taken singly is the first of those that are taken all at once (`TokenStream.drain_pull`).
So what a stream still hands out is known from `TokenStream.drain`, however far it has read ahead.

## What each part rests on

* `TokenStream.Kept` says once what every way of taking tokens is made of, reading and handing out;
  a property that both of these keep is kept by all.
* `Course` says what a row of deliveries looks like: a fault in it is the last delivery. That a
  stream is over when it hands out a fault (`TokenStream.Orderly`) is such a property, and with it,
  iterating a stream is asking for all that remains (`TokenStream.remaining_eq_iterate`).
-/

namespace Sangria

/-! ### One token at a time -/

namespace TokenStream

/-- What a stream holds is handed out first. -/
theorem drain_eq_queue_append (s : TokenStream) :
    s.drain = (s.queue ++ (drain { s with queue := [] }).1, (drain { s with queue := [] }).2) := by
  obtain ⟨text, scanner, layout, queue, finished⟩ := s
  cases finished with
  | false =>
    rw [drain_of_not_finished rfl,
      drain_of_not_finished (s := ⟨text, scanner, layout, [], false⟩) rfl]
    rfl
  | true =>
    rw [drain_of_finished rfl, drain_of_finished rfl, List.append_nil]

/-- Reading ahead does not change what is handed out. -/
theorem drain_fill (n : Nat) (s : TokenStream) : (s.fill n).drain = s.drain := by
  induction n generalizing s with
  | zero => rfl
  | succ n ih =>
    rw [fill]
    split
    · rename_i h
      obtain ⟨text, scanner, layout, queue, finished⟩ := s
      obtain rfl : queue = [] := List.isEmpty_iff.1 h.1
      rw [ih, drain_of_not_finished (s := ⟨text, scanner, layout, [], finished⟩)
        (Bool.eq_false_iff.2 h.2)]
      rfl
    · rfl

/-- A stream that has read ahead holds something, or is over. -/
theorem fill_ready {n : Nat} {s : TokenStream} (h : s.reads ≤ n) :
    (s.fill n).queue ≠ [] ∨ (s.fill n).finished = true := by
  induction n generalizing s with
  | zero => exact absurd h (Nat.not_succ_le_zero _)
  | succ n ih =>
    rw [fill]
    split
    · rcases read_finished_or_reads_lt s with hf | hlt
      · -- nothing is read any more
        refine .inr ?_
        cases n with
        | zero => exact hf
        | succ n => rwa [fill, if_neg fun h ↦ h.2 hf]
      · exact ih (by omega)
    · rename_i hready
      rw [not_and_or, List.isEmpty_iff, not_not] at hready
      exact hready

/-- A stream that has nothing to hand out is over. -/
theorem over_of_pull {s s' : TokenStream} (h : s.pull = (none, s')) :
    s'.queue = [] ∧ s'.finished = true := by
  have hready := fill_ready (Nat.le_refl s.reads)
  rw [pull] at h
  generalize s.fill s.reads = filled at h hready
  rcases hqueue : filled.queue with - | ⟨d, queue⟩
  · obtain rfl : filled = s' := by simpa [hqueue] using h
    exact ⟨hqueue, hready.resolve_left fun h ↦ h hqueue⟩
  · exact absurd h (by simp [hqueue])

/-- Tokens taken one at a time are those that are taken all at once, and leave the same stream. -/
theorem drain_pull (s : TokenStream) :
    s.drain = match s.pull with
      | (none, s') => ([], s')
      | (some d, s') => (d :: s'.drain.1, s'.drain.2) := by
  have hover (h : s.pull = (none, s.pull.2)) := over_of_pull h
  have hfill := drain_fill s.reads s
  rw [← hfill]
  rw [pull] at hover ⊢
  generalize s.fill s.reads = filled at hover
  rcases hqueue : filled.queue with - | ⟨d, queue⟩
  · have hfinished := (hover (by simp [hqueue])).2
    simp only [hqueue] at hfinished ⊢
    obtain ⟨text, scanner, layout, _, finished⟩ := filled
    obtain rfl := hqueue
    exact drain_of_finished hfinished
  · show filled.drain = (d :: (drain { filled with queue := queue }).1,
      (drain { filled with queue := queue }).2)
    rw [drain_eq_queue_append, drain_eq_queue_append { filled with queue := queue }, hqueue]
    rfl

theorem fill_text (n : Nat) (s : TokenStream) : (s.fill n).text = s.text := by
  induction n generalizing s with
  | zero => rfl
  | succ n ih =>
    rw [fill]
    split
    · exact (ih _).trans (read_text s)
    · rfl

theorem pull_text (s : TokenStream) : s.pull.2.text = s.text := by
  rw [pull]
  split <;> exact fill_text _ s

theorem next_of_pull_none {s s' : TokenStream} (h : s.pull = (none, s')) :
    s.next = (.ok (eofToken s.text), s') := by
  have htext := pull_text s
  rw [h] at htext
  rw [next, h, ← htext]

theorem next_of_pull_some {s s' : TokenStream} {d : Delivery} (h : s.pull = (some d, s')) :
    s.next = (d.map (token s.text), s') := by
  have htext := pull_text s
  rw [h] at htext
  rw [next, h, ← htext]

/-- A token that is not the end was the first of those still to be handed out. -/
theorem drain_of_next {s s' : TokenStream} {t : Token} (h : s.next = (.ok t, s'))
    (ht : t.kind ≠ .eof) : ∃ d, s.drain.1 = d :: s'.drain.1 := by
  rcases hpull : s.pull with ⟨- | d, s''⟩
  · rw [next_of_pull_none hpull] at h
    obtain rfl := Except.ok.inj (Prod.mk.inj h).1
    exact absurd rfl ht
  · rw [next_of_pull_some hpull] at h
    obtain rfl := (Prod.mk.inj h).2
    exact ⟨d, by rw [drain_pull, hpull]⟩

end TokenStream

/-! ### All at once, by taking one after the other -/

/-- What was taken at once: tokens, and the fault behind them if there was one. -/
structure Taken where
  /-- The tokens. -/
  tokens : List Token
  /-- The fault. -/
  fault : Option Diagnostic
  deriving DecidableEq, Repr

namespace Taken

/-- What was taken, with a token before it. -/
def push (t : Token) (taken : Taken) : Taken :=
  ⟨t :: taken.tokens, taken.fault⟩

/-- What was taken, unless there was a fault. -/
def result (taken : Taken) : Except Diagnostic (List Token) :=
  match taken.fault with
  | none => .ok taken.tokens
  | some d => .error d

theorem result_push (t : Token) (taken : Taken) :
    (taken.push t).result = taken.result.map (t :: ·) := by
  obtain ⟨ts, - | d⟩ := taken <;> rfl

end Taken

namespace TokenStream

/-- Take the next token with its position again and again, up to the end of the source or a fault.
The end is one of the tokens. -/
def iterate (s : TokenStream) : Taken × TokenStream :=
  match _h : s.next with
  | (.error d, s') => (⟨[], some d⟩, s')
  | (.ok t, s') =>
    if _ht : t.kind = .eof then (⟨[t], none⟩, s') else (s'.iterate.1.push t, s'.iterate.2)
termination_by s.drain.1.length
decreasing_by
  obtain ⟨d, hd⟩ := drain_of_next _h _ht
  rw [hd]
  exact Nat.lt_succ_self _

section Iterate

variable {s s' : TokenStream} {t : Token} {d : Diagnostic}

theorem iterate_of_fault (h : s.next = (.error d, s')) : s.iterate = (⟨[], some d⟩, s') := by
  rw [iterate]
  split <;> simp_all

theorem iterate_of_eof (h : s.next = (.ok t, s')) (ht : t.kind = .eof) :
    s.iterate = (⟨[t], none⟩, s') := by
  rw [iterate]
  split <;> simp_all

theorem iterate_of_token (h : s.next = (.ok t, s')) (ht : t.kind ≠ .eof) :
    s.iterate = (s'.iterate.1.push t, s'.iterate.2) := by
  rw [iterate]
  split <;> simp_all

end Iterate

end TokenStream

/-- What a row of deliveries comes to when it is taken as a whole: its tokens, up to a fault or with
the end of the source behind them. -/
def told (text : List Char) : List Delivery → Taken
  | [] => ⟨[TokenStream.eofToken text], none⟩
  | .error d :: _ => ⟨[], some d⟩
  | .ok t :: rest => (told text rest).push (TokenStream.token text t)

theorem told_result (text : List Char) (ds : List Delivery) :
    (told text ds).result = (ds.mapM id).map fun ts ↦
      ts.map (TokenStream.token text) ++ [TokenStream.eofToken text] := by
  induction ds with
  | nil => rfl
  | cons d rest ih =>
    cases d with
    | error d => rfl
    | ok t =>
      rw [told, Taken.result_push, ih, List.mapM_cons]
      cases rest.mapM id <;> rfl

/-- A row of deliveries as a stream has it: tokens, none of which is the end of the source, and
perhaps a fault behind them. -/
inductive Course : List Delivery → Prop
  /-- Nothing. -/
  | nil : Course []
  /-- A fault, as the last thing. -/
  | fault (d : Diagnostic) : Course [.error d]
  /-- A token, and what follows. -/
  | token {t : Lexeme} {rest : List Delivery} (kind : t.kind ≠ .eof) (later : Course rest) :
      Course (.ok t :: rest)

namespace Course

variable {ds ds' : List Delivery}

theorem of_tokens {ts : List Lexeme} (h : ∀ t ∈ ts, t.kind ≠ .eof) : Course (ts.map .ok) := by
  induction ts with
  | nil => exact .nil
  | cons t ts ih =>
    exact .token (h t List.mem_cons_self) (ih fun u hu ↦ h u (List.mem_cons_of_mem _ hu))

/-- Behind tokens without a fault, anything may follow. -/
theorem append (h : Course ds) (hds : ∀ d, .error d ∉ ds) (h' : Course ds') :
    Course (ds ++ ds') := by
  induction h with
  | nil => exact h'
  | fault d => exact absurd List.mem_cons_self (hds d)
  | token kind _ ih => exact .token kind (ih fun d hd ↦ hds d (List.mem_cons_of_mem _ hd))

theorem tail (h : Course ds) : Course ds.tail := by
  cases h with
  | nil => exact .nil
  | fault d => exact .nil
  | token _ later => exact later

theorem drop (h : Course ds) (n : Nat) : Course (ds.drop n) := by
  induction n with
  | zero => exact h
  | succ n ih => exact List.tail_drop ▸ ih.tail

end Course

namespace TokenStream

/-! ### What every call keeps -/

/-- A property of streams that is kept by reading and by handing out. -/
structure Kept (P : TokenStream → Prop) : Prop where
  /-- Reading keeps it, where reading is not over. -/
  read : ∀ s, s.finished = false → P s → P s.read
  /-- Handing out keeps it. -/
  drop : ∀ s n, P s → P { s with queue := s.queue.drop n }

namespace Kept

variable {P : TokenStream → Prop} {s : TokenStream}

theorem fill (h : Kept P) (hs : P s) (n : Nat) : P (s.fill n) := by
  induction n generalizing s with
  | zero => exact hs
  | succ n ih =>
    rw [TokenStream.fill]
    split
    · rename_i hready
      exact ih (h.read s (Bool.eq_false_iff.2 hready.2) hs)
    · exact hs

theorem pull (h : Kept P) (hs : P s) : P s.pull.2 := by
  have hfill := h.fill hs s.reads
  rw [TokenStream.pull]
  generalize s.fill s.reads = filled at hfill
  split
  · exact hfill
  · rename_i d queue hqueue
    have hdrop := h.drop filled 1 hfill
    rwa [hqueue] at hdrop

theorem next (h : Kept P) (hs : P s) : P s.next.2 := by
  have hpull := h.pull hs
  rw [TokenStream.next]
  split <;> rename_i heq <;> rwa [heq] at hpull

theorem iterate (h : Kept P) (hs : P s) : P s.iterate.2 := by
  have of_next {s s' : TokenStream} {answer : Except Diagnostic Token} (hs : P s)
      (hnext : s.next = (answer, s')) : P s' := by
    have hkept := h.next hs
    rwa [hnext] at hkept
  induction s using TokenStream.iterate.induct with
  | case1 s d s' hnext =>
    rw [iterate_of_fault hnext]
    exact of_next hs hnext
  | case2 s t s' hnext ht =>
    rw [iterate_of_eof hnext ht]
    exact of_next hs hnext
  | case3 s t s' hnext ht ih =>
    rw [iterate_of_token hnext ht]
    exact ih (of_next hs hnext)

end Kept

/-! ### Streams in order -/

/-- A stream holds a row as it should be, and reads no more behind a fault. -/
structure Orderly (s : TokenStream) : Prop where
  /-- The row. -/
  course : Course s.queue
  /-- Nothing is read behind a fault. -/
  ended : ∀ d, .error d ∈ s.queue → s.finished = true

theorem orderly_ofText (text : List Char) : (ofText text).Orderly :=
  ⟨.nil, fun _ h ↦ absurd h List.not_mem_nil⟩

namespace Orderly

variable {s : TokenStream}

/-- What a stream in order holds may be followed by anything, unless it is over. -/
theorem course_append (h : s.Orderly) (hf : s.finished = false) {ds : List Delivery}
    (hds : Course ds) : Course (s.queue ++ ds) :=
  h.course.append (fun d hd ↦ absurd (h.ended d hd) (Bool.eq_false_iff.1 hf)) hds

/-- Reading adds tokens, none of which is the end of the source, and perhaps a fault. -/
theorem read (h : s.Orderly) (hf : s.finished = false) : s.read.Orderly := by
  have no_fault (d : Diagnostic) (tokens : List Lexeme) :
      .error d ∉ s.queue ++ tokens.map Except.ok := by
    rw [List.mem_append, not_or]
    exact ⟨fun hd ↦ absurd (h.ended d hd) (Bool.eq_false_iff.1 hf), by simp⟩
  unfold TokenStream.read
  split
  · rename_i t next hscan
    have hkind : t.kind ≠ .eof := by
      rcases Scanner.kind_of_scan hscan with ⟨hkind, -⟩ | hword
      · rw [hkind]
        decide
      · exact fun heof ↦ absurd (heof ▸ hword) (by decide)
    have hkinds : ∀ u ∈ (s.layout.take s.text t).1, u.kind ≠ .eof := by
      intro u hu
      rcases Layout.eq_or_unwritten_of_mem_take hu with rfl | rfl | rfl
      · exact hkind
      · exact (by decide : Kind.indent ≠ .eof)
      · exact (by decide : Kind.dedent ≠ .eof)
    dsimp only
    split
    · rename_i tokens l' htake
      rw [htake] at hkinds
      exact ⟨h.course_append hf (.of_tokens hkinds), fun d hd ↦ absurd hd (no_fault d tokens)⟩
    · rename_i tokens f htake
      rw [htake] at hkinds
      refine ⟨?_, fun _ _ ↦ rfl⟩
      show Course ((s.queue ++ tokens.map Except.ok) ++ [.error (f.diagnostic s.text t.offset)])
      exact (h.course_append hf (.of_tokens hkinds)).append (no_fault · tokens) (.fault _)
  · exact ⟨h.course_append hf (.fault _), fun _ _ ↦ rfl⟩
  · refine ⟨h.course_append hf (.of_tokens fun u hu ↦ ?_), fun _ _ ↦ rfl⟩
    rcases Layout.eq_of_mem_close hu with rfl | rfl
    · exact (by decide : Kind.newline ≠ .eof)
    · exact (by decide : Kind.dedent ≠ .eof)

theorem kept : Kept Orderly where
  read _ hf h := h.read hf
  drop _ n h := ⟨h.course.drop n, fun d hd ↦ h.ended d (List.mem_of_mem_drop hd)⟩

/-- What a stream in order still hands out is a row as it should be. -/
theorem course_drain (h : s.Orderly) : Course s.drain.1 := by
  induction hn : s.reads using Nat.strongRecOn generalizing s with
  | ind n ih =>
    cases hf : s.finished with
    | true => exact drain_of_finished hf ▸ h.course
    | false =>
      rw [drain_of_not_finished hf]
      have hempty : Orderly { s with queue := [] } := ⟨.nil, fun _ hd ↦ absurd hd List.not_mem_nil⟩
      have hread := hempty.read hf
      refine h.course_append hf ?_
      rcases read_finished_or_reads_lt { s with queue := [] } with hover | hlt
      · rw [drain_of_finished hover]
        exact hread.course
      · exact ih _ (hn ▸ hlt) hread rfl

/-- Behind a fault, a stream in order holds nothing and is over. -/
theorem over_of_fault (h : s.Orderly) {s' : TokenStream} {d : Diagnostic}
    (hpull : s.pull = (some (.error d), s')) : s'.queue = [] ∧ s'.finished = true := by
  have hfill := kept.fill h s.reads
  rw [pull] at hpull
  generalize s.fill s.reads = filled at hpull hfill
  rcases hqueue : filled.queue with - | ⟨d', queue⟩
  · simp [hqueue] at hpull
  · simp only [hqueue, Prod.mk.injEq, Option.some.injEq] at hpull
    obtain ⟨rfl, rfl⟩ := hpull
    have hcourse := hqueue ▸ hfill.course
    refine ⟨?_, hfill.ended d (hqueue ▸ List.mem_cons_self)⟩
    cases hcourse with
    | fault => rfl

end Orderly

/-- Iterating a stream in order takes what is taken all at once, up to a fault. -/
theorem iterate_eq {s : TokenStream} (h : s.Orderly) :
    s.iterate = (told s.text s.drain.1, s.drain.2) := by
  induction hn : s.drain.1.length using Nat.strongRecOn generalizing s with
  | ind n ih =>
    have hcourse := h.course_drain
    have hdrain := s.drain_pull
    rcases hpull : s.pull with ⟨- | d | t, s'⟩
    · rw [hpull] at hdrain
      rw [iterate_of_eof (next_of_pull_none hpull) rfl, hdrain]
      rfl
    · rw [hpull] at hdrain
      obtain ⟨hqueue, hover⟩ := h.over_of_fault hpull
      have hlater : s'.drain.2 = s' := by
        rw [drain_of_finished hover, ← hqueue]
      rw [iterate_of_fault (next_of_pull_some hpull), hdrain, hlater]
      rfl
    · rw [hpull] at hdrain
      rw [hdrain] at hcourse hn
      have hkind : t.kind ≠ .eof := by cases hcourse with | token kind _ => exact kind
      have hs' : s'.Orderly := by simpa [hpull] using Orderly.kept.pull h
      have htext : s'.text = s.text := by simpa [hpull] using pull_text s
      have hlt : s'.drain.1.length < n := hn ▸ Nat.lt_succ_self _
      rw [iterate_of_token (next_of_pull_some hpull) hkind, ih _ hlt hs' rfl, hdrain, htext]
      rfl

/-- Asking a stream in order for all that remains iterates it. -/
theorem remaining_eq_iterate {s : TokenStream} (h : s.Orderly) :
    s.remaining = (s.iterate.1.result, s.iterate.2) := by
  have htext : s.drain.2.text = s.text := drainIn_text _ s
  rw [iterate_eq h, told_result, remaining]
  dsimp only
  rw [htext]

end TokenStream

end Sangria
