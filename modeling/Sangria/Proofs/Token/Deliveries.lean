import Sangria.Proofs.Token.Munching
import Sangria.Token.Stream

/-!
# What a stream delivers

A stream is drained in a bounded number of reads. The bound is never reached, because every read
takes a character or is the last one (`Scanner.length_lt_of_scan`). So what a scanner and a layout
still deliver (`deliveries`) satisfies the equations of a stream without a bound, one for each thing
that a scanner can find, and everything said about tokens rests on those.
-/

namespace Sangria

namespace Scanner

/-- A token that a scanner finds was munched behind the gap. -/
theorem exists_munch_of_scan {s next : Scanner} {t : Lexeme} (h : s.scan = .lexeme t next) :
    ∃ c rest n, s.rest.drop (gap s.rest) = c :: rest ∧ munch (c :: rest) = some (t.kind, n) ∧
      t.text = String.ofList ((c :: rest).take n) ∧ next.rest = (c :: rest).drop n := by
  unfold scan at h
  dsimp only at h
  split at h
  · exact absurd h (by simp)
  · rename_i c rest hrest
    split at h
    · exact absurd h (by simp)
    · rename_i k n hmunch
      obtain ⟨rfl, rfl⟩ := Scan.lexeme.inj h
      rw [hrest] at hmunch
      have hskip : s.rest.drop (gap s.rest) = c :: rest := hrest
      exact ⟨c, rest, n, hskip, hmunch, by rw [hrest], by simp only [skip, hskip]⟩

/-- A scanner that finds a token takes at least one character. -/
theorem length_lt_of_scan {s next : Scanner} {t : Lexeme} (h : s.scan = .lexeme t next) :
    next.rest.length < s.rest.length := by
  obtain ⟨c, rest, n, hrest, hmunch, -, hnext⟩ := exists_munch_of_scan h
  have hpos := (munch_length hmunch).1
  have hlength := congrArg List.length hrest
  rw [List.length_drop, List.length_cons] at hlength
  rw [hnext, List.length_drop, List.length_cons]
  omega

/-- A token is a line end that is written, or stands inside a line. -/
theorem kind_of_scan {s next : Scanner} {t : Lexeme} (h : s.scan = .lexeme t next) :
    (t.kind = .newline ∧ t.text ≠ "") ∨ t.kind.isWord = true := by
  obtain ⟨c, rest, n, -, hmunch, htext, -⟩ := exists_munch_of_scan h
  obtain ⟨hpos, -, hkind⟩ := munch_length hmunch
  split at hkind
  · refine .inl ⟨hkind, fun hempty ↦ ?_⟩
    -- a token of one character or more has a text
    rw [htext, ← String.ofList_nil] at hempty
    rcases List.take_eq_nil_iff.1 (String.ofList_injective hempty) with hn | hnil
    · omega
    · exact absurd hnil (List.cons_ne_nil _ _)
  · exact .inr hkind

theorem isWord_of_scan {s next : Scanner} {t : Lexeme} (h : s.scan = .lexeme t next)
    (hkind : t.kind ≠ .newline) : t.kind.isWord = true :=
  (kind_of_scan h).resolve_left fun hend ↦ hkind hend.1

end Scanner

namespace TokenStream

/-- Nothing is read once reading is over. -/
theorem drainIn_of_finished {s : TokenStream} (h : s.finished = true) (n : Nat) :
    drainIn n s = (s.queue, { s with queue := [] }) := by
  cases n with
  | zero => rfl
  | succ n => rw [drainIn, if_pos h]

/-- Every read takes a character, or is the last one. -/
theorem read_finished_or_reads_lt (s : TokenStream) :
    s.read.finished = true ∨ s.read.reads < s.reads := by
  unfold read
  split
  · rename_i t next hscan
    have hlt := Scanner.length_lt_of_scan hscan
    dsimp only
    split
    · exact .inr (Nat.succ_lt_succ hlt)
    · exact .inl rfl
  · exact .inl rfl
  · exact .inl rfl

/-- More reads than are needed read nothing more. -/
theorem drainIn_congr {s : TokenStream} {n m : Nat} (hn : s.reads ≤ n) (hm : s.reads ≤ m) :
    drainIn n s = drainIn m s := by
  induction n generalizing m s with
  | zero => exact absurd hn (Nat.not_succ_le_zero _)
  | succ n ih =>
    obtain ⟨m, rfl⟩ : ∃ m', m = m' + 1 := ⟨m - 1, by unfold reads at hm; omega⟩
    rw [drainIn, drainIn]
    split
    · rfl
    · have hlater :
          drainIn n { s with queue := [] }.read = drainIn m { s with queue := [] }.read := by
        have hreads : reads { s with queue := [] } = s.reads := rfl
        rcases read_finished_or_reads_lt { s with queue := [] } with hf | hlt
        · rw [drainIn_of_finished hf, drainIn_of_finished hf]
        · exact ih (by omega) (by omega)
      rw [hlater]

theorem drain_of_finished {s : TokenStream} (h : s.finished = true) :
    s.drain = (s.queue, { s with queue := [] }) :=
  drainIn_of_finished h _

/-- What a stream holds is handed out before what it reads. -/
theorem drain_of_not_finished {s : TokenStream} (h : s.finished = false) :
    s.drain = (s.queue ++ (drain { s with queue := [] }.read).1,
      (drain { s with queue := [] }.read).2) := by
  have hlater : drainIn s.scanner.rest.length { s with queue := [] }.read =
      drain { s with queue := [] }.read := by
    rcases read_finished_or_reads_lt { s with queue := [] } with hf | hlt
    · rw [drain_of_finished hf, drainIn_of_finished hf]
    · exact drainIn_congr (Nat.le_of_lt_succ hlt) (Nat.le_refl _)
  rw [drain, reads, drainIn, if_neg (by rw [h]; exact Bool.false_ne_true), hlater]

/-- Reading does not change the source. -/
theorem read_text (s : TokenStream) : s.read.text = s.text := by
  unfold read
  split
  · dsimp only
    split <;> rfl
  · rfl
  · rfl

theorem drainIn_text (n : Nat) (s : TokenStream) : (drainIn n s).2.text = s.text := by
  induction n generalizing s with
  | zero => rfl
  | succ n ih =>
    rw [drainIn]
    split
    · rfl
    · exact (ih _).trans (read_text _)

end TokenStream

/-- What a scanner and a layout of a source still deliver. -/
def deliveries (text : List Char) (scanner : Scanner) (layout : Layout) : List Delivery :=
  (TokenStream.drain ⟨text, scanner, layout, [], false⟩).1

section Deliveries

variable {text : List Char} {scanner next : Scanner} {layout layout' : Layout} {t : Lexeme}
  {tokens : List Lexeme}

theorem drain_queue (text : List Char) (scanner : Scanner) (layout : Layout)
    (queue : List Delivery) :
    (TokenStream.drain ⟨text, scanner, layout, queue, false⟩).1 =
      queue ++ deliveries text scanner layout := by
  have hfull := TokenStream.drain_of_not_finished
    (s := ⟨text, scanner, layout, queue, false⟩) rfl
  have hempty := TokenStream.drain_of_not_finished (s := ⟨text, scanner, layout, [], false⟩) rfl
  rw [deliveries, hfull, hempty]
  rfl

/-- A lexeme delivers what it adds to the layout. -/
theorem deliveries_of_lexeme (hs : scanner.scan = .lexeme t next)
    (ht : layout.take text t = (tokens, .ok layout')) :
    deliveries text scanner layout = tokens.map .ok ++ deliveries text next layout' := by
  rw [deliveries, TokenStream.drain_of_not_finished rfl, TokenStream.read]
  simp only [hs, ht]
  exact drain_queue text next layout' (tokens.map .ok)

/-- A lexeme whose line fits no block delivers what it closes, and a fault. -/
theorem deliveries_of_fault {f : LexicalFault} (hs : scanner.scan = .lexeme t next)
    (ht : layout.take text t = (tokens, .error f)) :
    deliveries text scanner layout = tokens.map .ok ++ [.error (f.diagnostic text t.offset)] := by
  rw [deliveries, TokenStream.drain_of_not_finished rfl, TokenStream.read]
  simp only [hs, ht]
  rw [TokenStream.drain_of_finished rfl]
  rfl

/-- A character that begins no token delivers a fault. -/
theorem deliveries_of_illegal {c : Char} (hs : scanner.scan = .illegal c next) :
    deliveries text scanner layout =
      [.error ((LexicalFault.ofChar c).diagnostic text next.offset)] := by
  rw [deliveries, TokenStream.drain_of_not_finished rfl, TokenStream.read]
  simp only [hs]
  rw [TokenStream.drain_of_finished rfl]
  rfl

/-- The end of the source delivers what it closes. -/
theorem deliveries_of_finished (hs : scanner.scan = .finished next) :
    deliveries text scanner layout = (layout.close next.line text.length).map .ok := by
  rw [deliveries, TokenStream.drain_of_not_finished rfl, TokenStream.read]
  simp only [hs]
  rw [TokenStream.drain_of_finished rfl]
  rfl

/-- The tokens that a scanner and a layout of a source still deliver when there is no fault. -/
inductive Delivers (text : List Char) : Scanner → Layout → List Lexeme → Prop
  /-- At the end, what it closes. -/
  | finished {scanner next : Scanner} {layout : Layout} (scan : scanner.scan = .finished next) :
      Delivers text scanner layout (layout.close next.line text.length)
  /-- What a lexeme adds, and what follows. -/
  | lexeme {scanner next : Scanner} {layout layout' : Layout} {t : Lexeme}
      {tokens rest : List Lexeme} (scan : scanner.scan = .lexeme t next)
      (take : layout.take text t = (tokens, .ok layout'))
      (later : Delivers text next layout' rest) :
      Delivers text scanner layout (tokens ++ rest)

theorem deliveries_of_delivers {ts : List Lexeme} (h : Delivers text scanner layout ts) :
    deliveries text scanner layout = ts.map .ok := by
  induction h with
  | finished hs => exact deliveries_of_finished hs
  | lexeme hs ht _ ih => rw [deliveries_of_lexeme hs ht, ih, List.map_append]

/-- Induction on what is delivered, along what the scanner finds. -/
theorem deliveries_induction (text : List Char)
    {motive : Scanner → Layout → List Delivery → Prop}
    (finished : ∀ s next l, s.scan = .finished next →
      motive s l ((l.close next.line text.length).map .ok))
    (illegal : ∀ s next l c, s.scan = .illegal c next →
      motive s l [.error ((LexicalFault.ofChar c).diagnostic text next.offset)])
    (fault : ∀ s next l t tokens f, s.scan = .lexeme t next → l.take text t = (tokens, .error f) →
      motive s l (tokens.map .ok ++ [.error (f.diagnostic text t.offset)]))
    (lexeme : ∀ s next l l' t tokens, s.scan = .lexeme t next → l.take text t = (tokens, .ok l') →
      motive next l' (deliveries text next l') →
      motive s l (tokens.map .ok ++ deliveries text next l'))
    (s : Scanner) (l : Layout) : motive s l (deliveries text s l) := by
  induction hn : s.rest.length using Nat.strongRecOn generalizing s l with
  | ind n ih =>
    subst hn
    rcases hs : s.scan with ⟨t, next⟩ | ⟨c, next⟩ | next
    · rcases ht : l.take text t with ⟨tokens, f | l'⟩
      · rw [deliveries_of_fault hs ht]
        exact fault s next l t tokens f hs ht
      · rw [deliveries_of_lexeme hs ht]
        exact lexeme s next l l' t tokens hs ht (ih _ (Scanner.length_lt_of_scan hs) next l' rfl)
    · rw [deliveries_of_illegal hs]
      exact illegal s next l c hs
    · rw [deliveries_of_finished hs]
      exact finished s next l hs

/-- Whatever a scanner finds next, the deliveries come to tokens, and then to the end or a fault. -/
theorem exists_delivers_or_error (text : List Char) (scanner : Scanner) (layout : Layout) :
    (∃ ts, Delivers text scanner layout ts) ∨
      ∃ (ts : List Lexeme) (d : Diagnostic), deliveries text scanner layout =
        ts.map .ok ++ [.error d] := by
  induction scanner, layout using deliveries_induction text with
  | finished s next l hs => exact .inl ⟨_, .finished hs⟩
  | illegal s next l c hs => exact .inr ⟨[], _, rfl⟩
  | fault s next l t tokens f hs ht => exact .inr ⟨tokens, _, rfl⟩
  | lexeme s next l l' t tokens hs ht ih =>
    rcases ih with ⟨ts, hts⟩ | ⟨ts, d, hd⟩
    · exact .inl ⟨tokens ++ ts, .lexeme hs ht hts⟩
    · refine .inr ⟨tokens ++ ts, d, ?_⟩
      rw [hd, List.map_append, List.append_assoc]

/-- Deliveries without a fault are described by `Delivers`. -/
theorem deliveries_eq_iff {ts : List Lexeme} :
    deliveries text scanner layout = ts.map .ok ↔ Delivers text scanner layout ts := by
  refine ⟨fun h ↦ ?_, deliveries_of_delivers⟩
  rcases exists_delivers_or_error text scanner layout with ⟨us, hus⟩ | ⟨us, d, hd⟩
  · rw [deliveries_of_delivers hus] at h
    rwa [← (List.map_inj_right fun _ _ ↦ Except.ok.inj).1 h]
  · -- a fault is no token
    have hmem : (.error d : Delivery) ∈ ts.map Except.ok := by
      rw [← h, hd]
      exact List.mem_append_right _ List.mem_cons_self
    simp at hmem

end Deliveries

/-- What is delivered without a fault are tokens. -/
theorem mapM_id_eq_ok_iff {ds : List Delivery} {ts : List Lexeme} :
    ds.mapM id = .ok ts ↔ ds = ts.map .ok := by
  induction ds generalizing ts with
  | nil => cases ts <;> simp [pure, Except.pure]
  | cons d rest ih =>
    rw [List.mapM_cons]
    rcases d with d | t
    · cases ts <;> simp [bind, Except.bind]
    · cases ts with
      | nil => rcases hr : rest.mapM id with d | us <;> simp [bind, Except.bind, pure, Except.pure]
      | cons u us =>
        rw [List.map_cons, List.cons.injEq, Except.ok.injEq, ← ih]
        rcases hr : rest.mapM id with d | us <;> simp [bind, Except.bind, pure, Except.pure]

/-- A source has tokens exactly when its stream delivers them without a fault. -/
theorem tokenize_eq_ok_iff {source : String} {tokens : List Token} :
    tokenize source = .ok tokens ↔
      ∃ ts, Delivers source.toList (.ofText source.toList) .initial ts ∧
        tokens = ts.map (TokenStream.token source.toList) ++
          [TokenStream.eofToken source.toList] := by
  have htext : (TokenStream.ofText source.toList).drain.2.text = source.toList :=
    TokenStream.drainIn_text _ _
  change ((deliveries source.toList (.ofText source.toList) .initial).mapM id).map (fun ts ↦
    ts.map (TokenStream.token (TokenStream.ofText source.toList).drain.2.text) ++
      [TokenStream.eofToken (TokenStream.ofText source.toList).drain.2.text]) = .ok tokens ↔ _
  rw [htext]
  simp only [← deliveries_eq_iff, ← mapM_id_eq_ok_iff]
  cases (deliveries source.toList (.ofText source.toList) .initial).mapM id with
  | error d => simp [Except.map]
  | ok ts => simp [Except.map, eq_comm]

theorem mapM_id_append_error (ts : List Lexeme) (d : Diagnostic) (rest : List Delivery) :
    (ts.map .ok ++ .error d :: rest : List Delivery).mapM id = .error d := by
  induction ts with
  | nil => rfl
  | cons t ts ih =>
    rw [List.map_cons, List.cons_append, List.mapM_cons, ih]
    rfl

/-- A source has no tokens exactly when its stream delivers a fault, as the last thing. -/
theorem tokenize_eq_error_iff {source : String} {d : Diagnostic} :
    tokenize source = .error d ↔ ∃ ts : List Lexeme,
      deliveries source.toList (.ofText source.toList) .initial = ts.map .ok ++ [.error d] := by
  have of_deliveries {ts : List Lexeme} {d : Diagnostic}
      (h : deliveries source.toList (.ofText source.toList) .initial = ts.map .ok ++ [.error d]) :
      tokenize source = .error d := by
    change ((deliveries source.toList (.ofText source.toList) .initial).mapM id).map _ = _
    rw [h, mapM_id_append_error]
    rfl
  refine ⟨fun h ↦ ?_, fun ⟨ts, hts⟩ ↦ of_deliveries hts⟩
  rcases exists_delivers_or_error source.toList (.ofText source.toList) .initial with
    ⟨ts, hts⟩ | ⟨ts, d', hd⟩
  · exact absurd ((tokenize_eq_ok_iff.2 ⟨ts, hts, rfl⟩).symm.trans h) (by simp)
  · obtain rfl := Except.error.inj ((of_deliveries hd).symm.trans h)
    exact ⟨ts, hd⟩

end Sangria
