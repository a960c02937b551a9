import Sangria.Proofs.Token.Pulling

/-!
# Tokens asked for in any way

A stream of tokens can be asked for the next one, with its position or without, and for all that
remain; and it can be given another source at any time (`TokenStream.Request`). However the calls
are mixed, and whatever was asked before the source was given, what is handed out in turn is one and
the same row, which the source alone decides (`TokenStream.replies_of_source`): nothing is lost and
nothing comes twice, a fault is raised by one call, and behind the fault or the last token there is
only the end.

## What each part rests on

* `TokenStream.Call.handed_answer` is the account of one call on a row of deliveries: what is handed
  out, and what is left, are the row. `TokenStream.perform_eq` says that a call on a stream is a
  call on the row that is still to come.
* `TokenStream.HandsOut` is the account of calls in turn. A reply that ends is one way to begin it,
  and a reply that does not end goes before one (`HandsOut.of_ends`, `HandsOut.cons`), so the run
  is an induction on the calls.
-/

namespace Sangria

namespace TokenStream

/-! ### Calls -/

/-- What a stream can be asked for. -/
inductive Call
  /-- The next token, as it was cut from the source. -/
  | token
  /-- The next token with its position. -/
  | next
  /-- All tokens that remain, one after the other. -/
  | all
  deriving DecidableEq, Repr

/-- What can be done to a stream. -/
inductive Request
  /-- A source is given to it, and it starts over. -/
  | input (source : String)
  /-- It is asked for tokens. -/
  | call (c : Call)
  deriving DecidableEq, Repr

/-- What a call gives. -/
inductive Reply
  /-- A token or a fault, or nothing. -/
  | token (given : Option Delivery)
  /-- A token with its position, or a fault. -/
  | next (given : Except Diagnostic Token)
  /-- Tokens with their positions, and perhaps a fault behind them. -/
  | all (given : Taken)

/-- What a call gives, and the stream behind it. -/
def perform (s : TokenStream) : Call → Reply × TokenStream
  | .token => (.token s.pull.1, s.pull.2)
  | .next => (.next s.next.1, s.next.2)
  | .all => (.all s.iterate.1, s.iterate.2)

/-- What calls in turn give. -/
def replies (s : TokenStream) : List Call → List Reply
  | [] => []
  | c :: calls => (s.perform c).1 :: (s.perform c).2.replies calls

/-- The stream behind a request. -/
def request (s : TokenStream) : Request → TokenStream
  | .input source => ofText source.toList
  | .call c => (s.perform c).2

/-- The stream behind requests in turn. -/
def after (s : TokenStream) (requests : List Request) : TokenStream :=
  requests.foldl request s

namespace Kept

variable {P : TokenStream → Prop} {s : TokenStream}

theorem perform (h : Kept P) (hs : P s) (c : Call) : P (s.perform c).2 := by
  cases c with
  | token => exact h.pull hs
  | next => exact h.next hs
  | all => exact h.iterate hs

/-- What holds of the stream of every source, and is kept, holds behind all requests. -/
theorem after (h : Kept P) (htext : ∀ text, P (ofText text)) (hs : P s)
    (requests : List Request) : P (s.after requests) := by
  induction requests generalizing s with
  | nil => exact hs
  | cons r requests ih =>
    refine ih ?_
    cases r with
    | input source => exact htext _
    | call c => exact h.perform hs c

end Kept

namespace Reply

/-- The tokens that a reply hands out, and the fault that it raises. The end of the source is handed
out by none. -/
def handed (text : List Char) : Reply → List (Except Diagnostic Token)
  | .token given => given.toList.map (·.map (TokenStream.token text))
  | .next (.error d) => [.error d]
  | .next (.ok t) => if t.kind = .eof then [] else [.ok t]
  | .all given => (given.tokens.filter (·.kind ≠ .eof)).map .ok ++ given.fault.toList.map .error

theorem handed_next (text : List Char) {t : Token} (ht : t.kind ≠ .eof) :
    handed text (.next (.ok t)) = [.ok t] :=
  if_neg ht

/-- The fault that a reply raises. -/
def fault? : Reply → Option Diagnostic
  | .token (some (.error d)) | .next (.error d) => some d
  | .token _ | .next (.ok _) => none
  | .all given => given.fault

/-- Whether nothing comes behind a reply: it raises a fault, or tells of the end of the source. -/
def ends : Reply → Bool
  | .token (some (.ok _)) => false
  | .next (.ok t) => t.kind = .eof
  | _ => true

/-- A reply that tells of the end of a source and hands out nothing. -/
inductive IsEnd (text : List Char) : Reply → Prop
  /-- No token. -/
  | token : IsEnd text (.token none)
  /-- The end of the source. -/
  | next : IsEnd text (.next (.ok (eofToken text)))
  /-- The end of the source, and nothing before it. -/
  | all : IsEnd text (.all ⟨[eofToken text], none⟩)

theorem IsEnd.handed {text : List Char} {r : Reply} (h : r.IsEnd text) : r.handed text = [] := by
  cases h <;> rfl

theorem IsEnd.ends {text : List Char} {r : Reply} (h : r.IsEnd text) : r.ends = true := by
  cases h <;> rfl

end Reply

/-! ### The account of one call -/

/-- A row of deliveries, with the positions of the tokens. -/
def row (text : List Char) (ds : List Delivery) : List (Except Diagnostic Token) :=
  ds.map (·.map (token text))

/-- What a call gives on a row of deliveries, and what it leaves of the row. -/
def Call.answer (text : List Char) (ds : List Delivery) : Call → Reply × List Delivery
  | .token => (.token ds.head?, ds.tail)
  | .next => (.next ((row text ds).headD (.ok (eofToken text))), ds.tail)
  | .all => (.all (told text ds), [])

/-- Everything that is taken as a whole is handed out. -/
theorem handed_told {ds : List Delivery} (h : Course ds) (text : List Char) :
    Reply.handed text (.all (told text ds)) = row text ds := by
  induction h with
  | nil => rfl
  | fault d => rfl
  | @token t rest kind _ ih =>
    have hkind : (TokenStream.token text t).kind ≠ .eof := kind
    rw [told, Reply.handed, Taken.push, List.filter_cons_of_pos (by simpa using hkind)]
    exact congrArg (.ok (token text t) :: ·) ih

namespace Call

variable {text : List Char} {ds : List Delivery}

/-- What a call hands out, and what it leaves, are the row. -/
theorem handed_answer (text : List Char) (h : Course ds) (c : Call) :
    (c.answer text ds).1.handed text ++ row text (c.answer text ds).2 = row text ds := by
  cases c with
  | token => cases ds <;> rfl
  | next =>
    cases h with
    | nil => rfl
    | fault d => rfl
    | token kind _ => exact congrArg (· ++ _) (Reply.handed_next text kind)
  | all =>
    show Reply.handed text (.all (told text ds)) ++ [] = _
    rw [List.append_nil, handed_told h]

/-- A call that does not end hands out the first token of the row, and no more. -/
theorem exists_of_ends_eq_false (h : Course ds) {c : Call}
    (hc : (c.answer text ds).1.ends = false) :
    c ≠ .all ∧ ∃ t rest, ds = .ok t :: rest ∧
      (c.answer text ds).1.handed text = [.ok (TokenStream.token text t)] ∧
      (c.answer text ds).2 = rest := by
  cases c with
  | token =>
    cases h with
    | nil => exact absurd hc.symm Bool.false_ne_true
    | fault d => exact absurd hc.symm Bool.false_ne_true
    | token kind _ => exact ⟨by decide, _, _, rfl, rfl, rfl⟩
  | next =>
    cases h with
    | nil => exact absurd hc.symm Bool.false_ne_true
    | fault d => exact absurd hc.symm Bool.false_ne_true
    | token kind _ => exact ⟨by decide, _, _, rfl, Reply.handed_next text kind, rfl⟩
  | all => exact absurd hc.symm Bool.false_ne_true

/-- A call that ends leaves nothing, and raises the fault of the row. -/
theorem of_ends (h : Course ds) {c : Call} (hc : (c.answer text ds).1.ends = true) :
    (c.answer text ds).2 = [] ∧ (c.answer text ds).1.fault? = (told text ds).fault := by
  cases c with
  | token =>
    cases h with
    | nil => exact ⟨rfl, rfl⟩
    | fault d => exact ⟨rfl, rfl⟩
    | token _ _ => exact absurd hc Bool.false_ne_true
  | next =>
    cases h with
    | nil => exact ⟨rfl, rfl⟩
    | fault d => exact ⟨rfl, rfl⟩
    | token kind _ => exact absurd (of_decide_eq_true hc) kind
  | all => exact ⟨rfl, rfl⟩

/-- Where nothing is left, a call tells of the end and leaves nothing. -/
theorem isEnd_answer (text : List Char) (c : Call) :
    (c.answer text []).1.IsEnd text ∧ (c.answer text []).2 = [] := by
  cases c with
  | token => exact ⟨.token, rfl⟩
  | next => exact ⟨.next, rfl⟩
  | all => exact ⟨.all, rfl⟩

end Call

/-- A stream that is taken as a whole is over. -/
theorem over_of_drain (s : TokenStream) : s.drain.2.queue = [] ∧ s.drain.2.finished = true := by
  induction hn : s.reads using Nat.strongRecOn generalizing s with
  | ind n ih =>
    cases hf : s.finished with
    | true =>
      rw [drain_of_finished hf]
      exact ⟨rfl, hf⟩
    | false =>
      rw [drain_of_not_finished hf]
      rcases read_finished_or_reads_lt { s with queue := [] } with hover | hlt
      · rw [drain_of_finished hover]
        exact ⟨rfl, hover⟩
      · exact ih _ (hn ▸ hlt) _ rfl

/-- A call on a stream in order gives what it gives on the row that is still to come. -/
theorem perform_eq {s : TokenStream} (h : s.Orderly) (c : Call) :
    (s.perform c).1 = (c.answer s.text s.drain.1).1 ∧
      (s.perform c).2.drain.1 = (c.answer s.text s.drain.1).2 := by
  have hdrain := s.drain_pull
  cases c with
  | token =>
    rcases hpull : s.pull with ⟨- | d, s'⟩ <;> rw [hpull] at hdrain <;> simp only [perform, hpull]
    · have hover := over_of_pull hpull
      rw [hdrain, drain_of_finished hover.2, hover.1]
      exact ⟨rfl, rfl⟩
    · rw [hdrain]
      exact ⟨rfl, rfl⟩
  | next =>
    rcases hpull : s.pull with ⟨- | d, s'⟩ <;> rw [hpull] at hdrain
    · have hover := over_of_pull hpull
      rw [perform, next_of_pull_none hpull, hdrain, drain_of_finished hover.2, hover.1]
      exact ⟨rfl, rfl⟩
    · rw [perform, next_of_pull_some hpull, hdrain]
      exact ⟨rfl, rfl⟩
  | all =>
    obtain ⟨hqueue, hover⟩ := over_of_drain s
    rw [perform, iterate_eq h]
    exact ⟨rfl, by rw [drain_of_finished hover]; exact hqueue⟩

/-- A row of tokens with a fault behind them, as its calls give it. -/
theorem row_append_fault (text : List Char) (ts : List Lexeme) (fault : Option Diagnostic) :
    row text (ts.map .ok ++ fault.toList.map .error) =
      (ts.map (token text)).map .ok ++ fault.toList.map .error := by
  rw [row, List.map_append, List.map_map, List.map_map, List.map_map]
  rfl

/-- Such a row, taken as a whole. -/
theorem told_append_fault (text : List Char) (ts : List Lexeme) (fault : Option Diagnostic) :
    told text (ts.map .ok ++ fault.toList.map .error) =
      ⟨ts.map (token text) ++ fault.elim [eofToken text] fun _ ↦ [], fault⟩ := by
  induction ts with
  | nil => cases fault <;> rfl
  | cons t ts ih => exact congrArg (Taken.push (token text t)) ih

/-! ### The account of calls in turn -/

/-- Replies to calls in turn hand out a row of tokens and the fault behind them, if there is one. -/
structure HandsOut (text : List Char) (tokens : List Token) (fault : Option Diagnostic)
    (calls : List Call) (replies : List Reply) : Prop where
  /-- What is handed out is a beginning of the row: nothing is lost and nothing comes twice. -/
  begins : replies.flatMap (·.handed text) <+: tokens.map .ok ++ fault.toList.map .error
  /-- A reply that does not end hands out one token. -/
  single : ∀ r ∈ replies, r.ends = false → ∃ t, r.handed text = [.ok t]
  /-- With the first reply that ends, all of the row has been handed out, and the fault is raised by
  that reply. All replies behind it tell of the end. -/
  ended : ∀ front r back, replies = front ++ r :: back → (∀ q ∈ front, q.ends = false) →
    r.ends = true →
      (front ++ [r]).flatMap (·.handed text) = tokens.map .ok ++ fault.toList.map .error ∧
      r.fault? = fault ∧ ∀ q ∈ back, q.IsEnd text
  /-- Enough calls end. -/
  reached : tokens.length < calls.length ∨ .all ∈ calls → ∃ r ∈ replies, r.ends = true

namespace HandsOut

variable {text : List Char} {tokens : List Token} {fault : Option Diagnostic} {calls : List Call}
  {replies : List Reply} {r : Reply}

/-- A reply that ends, and hands out the whole row, is followed by the end. -/
theorem of_ends (hr : r.ends = true)
    (hhanded : r.handed text = tokens.map .ok ++ fault.toList.map .error)
    (hfault : r.fault? = fault) (hback : ∀ q ∈ replies, q.IsEnd text) :
    HandsOut text tokens fault calls (r :: replies) := by
  refine ⟨?_, ?_, ?_, fun _ ↦ ⟨r, List.mem_cons_self, hr⟩⟩
  · have hnothing := List.flatMap_eq_nil_iff.2 fun q hq ↦ (hback q hq).handed
    have hall : (r :: replies).flatMap (·.handed text) =
        tokens.map .ok ++ fault.toList.map .error := by
      rw [List.flatMap_cons, hhanded, hnothing, List.append_nil]
    exact hall ▸ List.prefix_rfl
  · intro q hq hnot
    have hq : q.ends = true := by
      rcases List.mem_cons.1 hq with rfl | hq
      · exact hr
      · exact (hback q hq).ends
    exact absurd (hnot.symm.trans hq) Bool.false_ne_true
  · rintro (- | ⟨q, front⟩) r' back heq hfront -
    · obtain ⟨rfl, rfl⟩ := List.cons.inj heq
      exact ⟨by rw [← hhanded]; exact List.append_nil _, hfault, hback⟩
    · obtain ⟨rfl, -⟩ := List.cons.inj heq
      exact absurd ((hfront r List.mem_cons_self).symm.trans hr) Bool.false_ne_true

/-- A reply that does not end hands out the token before those that are handed out behind it. -/
theorem cons {c : Call} {t : Token} (h : HandsOut text tokens fault calls replies)
    (hc : c ≠ .all) (hr : r.ends = false) (hhanded : r.handed text = [.ok t]) :
    HandsOut text (t :: tokens) fault (c :: calls) (r :: replies) := by
  refine ⟨?_, ?_, ?_, fun hlong ↦ ?_⟩
  · rw [List.flatMap_cons, hhanded]
    exact List.cons_prefix_cons.2 ⟨rfl, h.begins⟩
  · intro q hq hnot
    rcases List.mem_cons.1 hq with rfl | hq
    · exact ⟨t, hhanded⟩
    · exact h.single q hq hnot
  · rintro (- | ⟨q, front⟩) r' back heq hfront hr'
    · obtain ⟨rfl, -⟩ := List.cons.inj heq
      exact absurd (hr.symm.trans hr') Bool.false_ne_true
    · obtain ⟨rfl, hsplit⟩ := List.cons.inj heq
      obtain ⟨hall, hbehind⟩ := h.ended front r' back hsplit
        (fun q hq ↦ hfront q (List.mem_cons_of_mem _ hq)) hr'
      refine ⟨?_, hbehind⟩
      rw [List.cons_append, List.flatMap_cons, hall, hhanded]
      rfl
  · obtain ⟨q, hq, hends⟩ := h.reached (hlong.imp Nat.lt_of_succ_lt_succ fun hall ↦
      (List.mem_cons.1 hall).resolve_left (Ne.symm hc))
    exact ⟨q, List.mem_cons_of_mem _ hq, hends⟩

end HandsOut

variable {s : TokenStream}

theorem text_perform (s : TokenStream) (c : Call) : (s.perform c).2.text = s.text := by
  have kept : Kept (·.text = s.text) := ⟨fun s' _ h ↦ (read_text s').trans h, fun _ _ h ↦ h⟩
  exact kept.perform rfl c

/-- Where nothing is left, all calls tell of the end. -/
theorem isEnd_of_mem_replies (h : s.Orderly) (hs : s.drain.1 = []) {calls : List Call} {r : Reply}
    (hr : r ∈ s.replies calls) : r.IsEnd s.text := by
  induction calls generalizing s with
  | nil => exact absurd hr List.not_mem_nil
  | cons c calls ih =>
    obtain ⟨hgiven, hleft⟩ := perform_eq h c
    obtain ⟨hend, hnothing⟩ := c.isEnd_answer s.text
    rw [hs] at hgiven hleft
    rcases List.mem_cons.1 hr with rfl | hr
    · rwa [hgiven]
    · rw [← text_perform s c]
      exact ih (Orderly.kept.perform h c) (hleft.trans hnothing) hr

theorem handsOut_replies {ts : List Lexeme} {fault : Option Diagnostic} (h : s.Orderly)
    (hs : s.drain.1 = ts.map .ok ++ fault.toList.map .error) (calls : List Call) :
    HandsOut s.text (ts.map (token s.text)) fault calls (s.replies calls) := by
  induction calls generalizing s ts with
  | nil =>
    exact ⟨List.nil_prefix, fun r hr ↦ absurd hr List.not_mem_nil,
      fun front r back heq ↦ by simp [replies] at heq, fun hlong ↦ by simp at hlong⟩
  | cons c calls ih =>
    have hcourse := h.course_drain
    have hlater := Orderly.kept.perform h c
    have htext := text_perform s c
    obtain ⟨hgiven, hleft⟩ := perform_eq h c
    rw [replies]
    generalize s.perform c = performed at hgiven hleft hlater htext
    obtain ⟨r, s'⟩ := performed
    dsimp only at hgiven hleft hlater htext ⊢
    cases hr : r.ends with
    | true =>
      obtain ⟨hnothing, hfault⟩ := Call.of_ends hcourse (hgiven ▸ hr)
      have hhanded := c.handed_answer s.text hcourse
      rw [← hgiven, hs, row_append_fault, ← hs, hnothing] at hhanded
      rw [← hgiven, hs, told_append_fault] at hfault
      exact .of_ends hr ((List.append_nil _).symm.trans hhanded) hfault fun q hq ↦
        htext ▸ isEnd_of_mem_replies hlater (hleft.trans hnothing) hq
    | false =>
      obtain ⟨hc, t, rest, hds, hhanded, hrest⟩ :=
        Call.exists_of_ends_eq_false hcourse (hgiven ▸ hr)
      rw [← hgiven] at hhanded
      rw [hds] at hs
      -- the token is the first of the row
      obtain ⟨ts, rfl, hlast⟩ : ∃ ts', ts = t :: ts' ∧
          rest = ts'.map .ok ++ fault.toList.map .error := by
        rcases ts with - | ⟨u, ts⟩
        · cases fault <;> simp at hs
        · obtain ⟨htu, hrest⟩ := List.cons.inj hs
          obtain rfl := Except.ok.inj htu
          exact ⟨ts, rfl, hrest⟩
      have hih := ih hlater ((hleft.trans hrest).trans hlast)
      rw [htext] at hih
      exact hih.cons hc hr hhanded

/-- However the tokens of a source are asked for, and whatever was asked before the source was given,
what is handed out is one row: the tokens of the source as they are taken one after the other from
its start, with the fault behind them if there is one. Asking for all that remains is taking them
one after the other. -/
theorem replies_of_source (source : String) :
    ∃ (tokens : List Token) (fault : Option Diagnostic),
      (ofText source.toList).iterate.1 =
        ⟨tokens ++ fault.elim [eofToken source.toList] fun _ ↦ [], fault⟩ ∧
      tokenize source = (match fault with
        | none => .ok (tokens ++ [eofToken source.toList])
        | some d => .error d) ∧
      ∀ (before : List Request) (calls : List Call),
        let s := empty.after (before ++ [.input source])
        HandsOut source.toList tokens fault calls (s.replies calls) ∧
          let s' := s.after (calls.map .call)
          s'.remaining = (s'.iterate.1.result, s'.iterate.2) := by
  have horderly := orderly_ofText source.toList
  have of_row {ts : List Lexeme} {fault : Option Diagnostic}
      (hds : (ofText source.toList).drain.1 = ts.map .ok ++ fault.toList.map .error)
      (before : List Request) (calls : List Call) :
      let s := empty.after (before ++ [.input source])
      HandsOut source.toList (ts.map (token source.toList)) fault calls (s.replies calls) ∧
        let s' := s.after (calls.map .call)
        s'.remaining = (s'.iterate.1.result, s'.iterate.2) := by
    have hstart : empty.after (before ++ [.input source]) = ofText source.toList := by
      rw [after, List.foldl_append]
      rfl
    rw [hstart]
    exact ⟨handsOut_replies horderly hds calls,
      remaining_eq_iterate (Orderly.kept.after orderly_ofText horderly _)⟩
  have iterate_of_row {ts : List Lexeme} {fault : Option Diagnostic}
      (hds : (ofText source.toList).drain.1 = ts.map .ok ++ fault.toList.map .error) :
      (ofText source.toList).iterate.1 =
        ⟨ts.map (token source.toList) ++ fault.elim [eofToken source.toList] fun _ ↦ [], fault⟩ := by
    rw [iterate_eq horderly, hds]
    exact told_append_fault _ ts fault
  rcases exists_delivers_or_error source.toList (.ofText source.toList) .initial with
    ⟨ts, hts⟩ | ⟨ts, d, hd⟩
  · have hds := (deliveries_of_delivers hts).trans (List.append_nil _).symm
    exact ⟨ts.map (token source.toList), none, iterate_of_row hds,
      tokenize_eq_ok_iff.2 ⟨ts, hts, rfl⟩, of_row hds⟩
  · exact ⟨ts.map (token source.toList), some d, iterate_of_row hd,
      tokenize_eq_error_iff.2 ⟨ts, hd⟩, of_row hd⟩

/-- The line that closes a block here fits none around it: the end of the block is handed out, then
the fault is raised, and then there is only the end. -/
theorem replies_of_source_dedent :
    let source := "if a:\n    1\n  2\n"
    let fault : Diagnostic :=
      ⟨.lexical, "la indentación no coincide con ningún nivel exterior", some ⟨3, 3⟩, []⟩
    let s := empty.after ([.input "(", .call .next] ++ [.input source])
    let calls : List Call :=
      [.next, .token, .token, .next, .token, .next, .next, .token, .next, .token, .next]
    tokenize source = .error fault ∧
      (s.replies calls).flatMap (·.handed source.toList) = [.ok ⟨.ifWord, "if", ⟨1, 1⟩⟩,
        .ok ⟨.name, "a", ⟨1, 4⟩⟩, .ok ⟨.colon, ":", ⟨1, 5⟩⟩, .ok ⟨.newline, "\n", ⟨1, 6⟩⟩,
        .ok ⟨.indent, "", ⟨2, 5⟩⟩, .ok ⟨.literal .int, "1", ⟨2, 5⟩⟩,
        .ok ⟨.newline, "\n", ⟨2, 6⟩⟩, .ok ⟨.dedent, "", ⟨3, 3⟩⟩, .error fault] ∧
      ∃ tokens, HandsOut source.toList tokens (some fault) calls (s.replies calls) := by
  intro source fault s calls
  have hfault : tokenize "if a:\n    1\n  2\n" = .error fault := by rfl
  refine ⟨hfault, ?_, ?_⟩
  · show ((ofText "if a:\n    1\n  2\n".toList).replies calls).flatMap
      (·.handed "if a:\n    1\n  2\n".toList) = _
    rfl
  · obtain ⟨tokens, fault', -, htokenize, hcalls⟩ := replies_of_source source
    cases fault' with
    | none => exact absurd (htokenize.symm.trans hfault) (by simp)
    | some d =>
      obtain rfl : d = fault := Except.error.inj (htokenize.symm.trans hfault)
      exact ⟨tokens, (hcalls [.input "(", .call .next] calls).1⟩

end TokenStream

end Sangria
