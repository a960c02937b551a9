import Sangria.CommandLine.Command

/-!
# How the command ends

The command ends with the code two exactly for wrong arguments, and reads nothing then. Otherwise it
ends with zero exactly if the source can be read, its tokens can be shown where that is asked for,
and the source has a value that can be written. It ends with one, and one message, in all other
cases but two: a value gets out as a fault, behind the banner, if it is an integer of too many
digits, or if its text holds surrogates and the output is encoded (`command_keeps_contract`).

That is so whatever is read, wherever the interpreter is in memory, and whatever is logged where
that is asked for.

## What each part rests on

* `Accepted` says when a source is run at all, and the command is `runCommand` then, behind what is
  logged (`command_of_accepted`).
* `CommandEnds` says all that the command can come to, with what it writes (`command_ends`); which
  of these it is follows from the parts of the reply.
* Asking for the tokens puts what is shown of them in front of what is written, and changes nothing
  else (`runCommand_eq_prepend`).
-/

namespace Sangria

/-! ### What the arguments ask for -/

/-- Arguments are wrong if one looks like an option and is none, or if there are several paths. -/
def WrongArgs (args : List String) : Prop :=
  (∃ a ∈ args, isOption a = true ∧ a ≠ "--tokens" ∧ a ≠ "--debug") ∨
    1 < (args.filter (!isOption ·)).length

/-- The path among arguments. -/
def sourcePath (args : List String) : Option String :=
  args.find? (!isOption ·)

theorem Options.ofArgs?_of_wrongArgs {args : List String} (h : WrongArgs args) :
    ofArgs? args = none := by
  refine if_neg fun ⟨hknown, hpaths⟩ ↦ ?_
  rcases h with ⟨a, ha, hoption, htokens, hdebug⟩ | hpaths'
  · have hone := List.all_eq_true.1 hknown a (List.mem_filter.2 ⟨ha, hoption⟩)
    simp [htokens, hdebug] at hone
  · exact absurd hpaths (Nat.not_le.2 hpaths')

/-- What right arguments ask for. -/
def optionsOf (args : List String) : Options :=
  ⟨args.contains "--tokens", args.contains "--debug", sourcePath args⟩

theorem tokens_optionsOf {args : List String} :
    (optionsOf args).tokens = true ↔ "--tokens" ∈ args :=
  List.contains_iff_mem

theorem debug_optionsOf {args : List String} : (optionsOf args).debug = true ↔ "--debug" ∈ args :=
  List.contains_iff_mem

theorem Options.ofArgs?_of_not_wrongArgs {args : List String} (h : ¬ WrongArgs args) :
    ofArgs? args = some (optionsOf args) := by
  rw [WrongArgs, not_or] at h
  obtain ⟨hknown, hpaths⟩ := h
  have hall : (args.filter isOption).all (fun o ↦ o = "--tokens" || o = "--debug") = true := by
    refine List.all_eq_true.2 fun a ha ↦ ?_
    obtain ⟨ha, hoption⟩ := List.mem_filter.1 ha
    have hone : a = "--tokens" ∨ a = "--debug" :=
      Decidable.or_iff_not_imp_left.2 fun htokens ↦
        Decidable.byContradiction fun hdebug ↦ hknown ⟨a, ha, hoption, htokens, hdebug⟩
    simpa using hone
  have hcontains {option : String} (hoption : isOption option = true) :
      (args.filter isOption).contains option = args.contains option := by
    rw [Bool.eq_iff_iff, List.contains_iff_mem, List.contains_iff_mem, List.mem_filter]
    exact and_iff_left hoption
  rw [ofArgs?, if_pos ⟨hall, Nat.not_lt.1 hpaths⟩, hcontains (by decide), hcontains (by decide),
    List.head?_filter]
  rfl

/-! ### When a source is run -/

section Accepted

variable (read : Option String → Except InputFault (List Nat)) (args : List String)

/-- The source that arguments ask for is read, and is text. -/
def Reads (source : String) : Prop :=
  ∃ bytes text, read (sourcePath args) = .ok bytes ∧ decodeUtf8 bytes = .ok text ∧
    source = .ofList (normalizeLineEnds text)

/-- What is written of all tokens. -/
def tokenDump (ts : List Token) : Text :=
  .ofString (tokensHeading ++ String.join (ts.map (·.line)))

/-- What is shown of the tokens of a source before it is run: nothing, or all of them if that is
asked for. -/
def Shows (source : String) (shown : Text) : Prop :=
  if "--tokens" ∈ args then ∃ ts, tokenize source = .ok ts ∧ shown = tokenDump ts else shown = []

/-- A source is run, behind what is shown of its tokens. -/
structure Accepted (source : String) (shown : Text) : Prop where
  /-- The arguments are right. -/
  right : ¬ WrongArgs args
  /-- The source is read. -/
  reads : Reads read args source
  /-- Its tokens are shown, if that is asked for. -/
  shows : Shows args source shown

end Accepted

/-- What is logged of a source that is read: nothing, unless that is asked for. -/
def logged (log : Options → String → String) (args : List String) (source : String) : String :=
  if "--debug" ∈ args then log (optionsOf args) source else ""

variable {read : Option String → Except InputFault (List Nat)} {args : List String}
  {host : Host} {log : Options → String → String} {source : String} {shown : Text}

theorem Reply.behind_optionsOf (r : Reply) (source : String) :
    r.behind (optionsOf args) (log (optionsOf args) source) =
      { r with stderr := logged log args source ++ r.stderr } := by
  by_cases h : "--debug" ∈ args
  · rw [behind, if_pos (debug_optionsOf.2 h), logged, if_pos h]
  · rw [behind, if_neg (mt debug_optionsOf.1 h), logged, if_neg h, String.empty_append]

theorem Reads.readSource (h : Reads read args source) :
    readSource (sourcePath args) (read (sourcePath args)) = .ok source := by
  obtain ⟨bytes, text, hread, hdecode, rfl⟩ := h
  rw [hread, Sangria.readSource, sourceOfBytes, hdecode]
  rfl

theorem command_of_wrongArgs (h : WrongArgs args) :
    command read args host log = ⟨.code 2, [], usage ++ "\n"⟩ := by
  rw [command, Options.ofArgs?_of_wrongArgs h]

/-- What the command does with a source that it reads. -/
theorem command_of_reads (hargs : ¬ WrongArgs args) (h : Reads read args source) :
    command read args host log =
      let reply := answerSource host (optionsOf args) source
      { reply with stderr := logged log args source ++ reply.stderr } := by
  have hread : Sangria.readSource (optionsOf args).path (read (optionsOf args).path) = .ok source :=
    h.readSource
  simp only [command, Options.ofArgs?_of_not_wrongArgs hargs, hread, Reply.behind_optionsOf]

theorem answerSource_of_shows (h : Shows args source shown) :
    answerSource host (optionsOf args) source = runCommand host shown source := by
  rw [answerSource]
  rw [Shows] at h
  split at h
  · rename_i htokens
    obtain ⟨ts, hts, rfl⟩ := h
    rw [if_pos (tokens_optionsOf.2 htokens), showTokens, hts]
    rfl
  · rename_i htokens
    obtain rfl := h
    rw [if_neg (mt tokens_optionsOf.1 htokens)]

theorem command_of_accepted (h : Accepted read args source shown) :
    command read args host log =
      { runCommand host shown source with
        stderr := logged log args source ++ (runCommand host shown source).stderr } := by
  rw [command_of_reads h.right h.reads, answerSource_of_shows h.shows]

/-! ### Values that can be written -/

/-- Only integers of too many digits have no text. -/
theorem Value.text?_eq_none_iff {v : Value} :
    v.text? = Option.none ↔ ∃ n, v = .int n ∧ 10 ^ maxDigits ≤ n.natAbs := by
  cases v with
  | int n => simp [text?, shown?, decimalText?, hasTooManyDigits]
  | _ => simp [text?, shown?]

/-- A value can be written on a stream, as a text: the stream keeps text as it is, or the text holds
no surrogates. -/
def Value.WrittenAs (v : Value) (s : Sink) (t : Text) : Prop :=
  v.text? = some t ∧ (s = .utf8 → ∀ p ∈ t, p.isSurrogate = false)

/-- A value cannot be written on a stream, and this is the fault. -/
inductive Value.Unwritable (s : Sink) : Value → Escape → Prop
  /-- An integer has too many digits. -/
  | tooLong {n : Int} (long : 10 ^ maxDigits ≤ n.natAbs) : Unwritable s (.int n) .valueTooLong
  /-- The text holds surrogates, and the stream encodes text. -/
  | refused {v : Value} {t : Text} {run : SurrogateRun} (encodes : s = .utf8)
      (text : v.text? = some t) (surrogates : t.surrogates? = some run) :
      Unwritable s v (.valueRefused run)

/-- A value can be written, or it cannot. -/
theorem Value.writtenAs_or_unwritable (v : Value) (s : Sink) :
    (∃ t, v.WrittenAs s t) ∨ ∃ e, v.Unwritable s e := by
  cases ht : v.text? with
  | none =>
    obtain ⟨n, rfl, hn⟩ := text?_eq_none_iff.1 ht
    exact .inr ⟨_, .tooLong hn⟩
  | some t =>
    cases hrefusal : s.refusal? t with
    | none => exact .inl ⟨t, ht, Sink.refusal?_eq_none_iff.1 hrefusal⟩
    | some run =>
      cases s with
      | memory => exact nomatch hrefusal
      | utf8 => exact .inr ⟨_, .refused rfl ht hrefusal⟩

/-! ### All that the command can come to -/

/-- What is written before a value. -/
def bannerText : Text :=
  .ofString ("\n" ++ banner ++ "\n")

section Ends

variable (read : Option String → Except InputFault (List Nat)) (args : List String) (host : Host)
  (log : Options → String → String)

/-- The command fails with one message, behind what is logged. -/
inductive Explained : Reply → Prop
  /-- There is no file to be read. -/
  | missing (missing : read (sourcePath args) = .error .missing) :
      Explained (.failure [] (missingMessage (sourcePath args)))
  /-- The source cannot be read. -/
  | unread {words : String} (unread : read (sourcePath args) = .error (.refused words)) :
      Explained (.failure [] (unreadableMessage (sourcePath args) words))
  /-- What is read is no text. -/
  | undecoded {bytes : List Nat} {f : Utf8Fault} (reads : read (sourcePath args) = .ok bytes)
      (fault : decodeUtf8 bytes = .error f) :
      Explained (.failure [] (unreadableMessage (sourcePath args) f.message))
  /-- The tokens that are to be shown come to a fault. -/
  | untokenized {source : String} {d : Diagnostic} (asked : "--tokens" ∈ args)
      (reads : Reads read args source) (fault : tokenize source = .error d) :
      Explained (.failure (.ofString tokensHeading) (logged log args source ++ d.text))
  /-- The source has no value. -/
  | failed {source : String} {shown : Text} {d : Diagnostic}
      (accepted : Accepted read args source shown)
      (fails : (runSource source host).1 = .ok (.failure d)) :
      Explained (.failure (shown ++ (runSource source host).2) (logged log args source ++ d.text))

/-- What the command can come to, with what it writes. -/
inductive CommandEnds : Reply → Prop
  /-- The arguments are wrong, and it says how it is used. -/
  | usage (wrong : WrongArgs args) : CommandEnds ⟨.code 2, [], usage ++ "\n"⟩
  /-- It fails, and says why. -/
  | failed {reply : Reply} (right : ¬ WrongArgs args)
      (explained : Explained read args host log reply) : CommandEnds reply
  /-- The source has a value, and that is written. -/
  | answered {source : String} {shown t : Text} {v : Value}
      (accepted : Accepted read args source shown)
      (answers : (runSource source host).1 = .ok (.success v))
      (written : v.WrittenAs host.sink t) :
      CommandEnds ⟨.code 0, shown ++ (runSource source host).2 ++ bannerText ++ t ++ [.char '\n'],
        logged log args source⟩
  /-- The source has a value that cannot be written. -/
  | escaped {source : String} {shown : Text} {v : Value} {e : Escape}
      (accepted : Accepted read args source shown)
      (answers : (runSource source host).1 = .ok (.success v))
      (unwritable : v.Unwritable host.sink e) :
      CommandEnds ⟨.escaped e, shown ++ (runSource source host).2 ++ bannerText,
        logged log args source⟩

end Ends

section Run

variable {v : Value}

/-- What comes of a source, beside what it writes. -/
theorem runSource_eq_of_fst {r : Except Escape Outcome} (h : (runSource source host).1 = r) :
    runSource source host = (r, (runSource source host).2) :=
  Prod.ext h rfl

/-- A source without a value is reported. -/
theorem runCommand_of_failure {d : Diagnostic} (h : (runSource source host).1 = .ok (.failure d))
    (shown : Text) :
    runCommand host shown source = .failure (shown ++ (runSource source host).2) d.text := by
  rw [runCommand, runSource_eq_of_fst h]

/-- A value that can be written is written. -/
theorem runCommand_of_writtenAs {t : Text} (h : (runSource source host).1 = .ok (.success v))
    (hv : v.WrittenAs host.sink t) (shown : Text) :
    runCommand host shown source =
      ⟨.code 0, shown ++ (runSource source host).2 ++ bannerText ++ t ++ [.char '\n'], ""⟩ := by
  rw [runCommand, runSource_eq_of_fst h]
  simp only [hv.1, Sink.refusal?_eq_none_iff.2 hv.2]
  rfl

/-- A value that cannot be written gets out as a fault. -/
theorem runCommand_of_unwritable {e : Escape} (h : (runSource source host).1 = .ok (.success v))
    (hv : v.Unwritable host.sink e) (shown : Text) :
    runCommand host shown source =
      ⟨.escaped e, shown ++ (runSource source host).2 ++ bannerText, ""⟩ := by
  rw [runCommand, runSource_eq_of_fst h]
  cases hv with
  | tooLong hn =>
    simp only [Value.text?_eq_none_iff.2 ⟨_, rfl, hn⟩]
    rfl
  | refused hencodes ht hsurrogates =>
    simp only [ht, hencodes, Sink.refusal?, hsurrogates]
    rfl

end Run

/-- What becomes of a source that is run, where that does not come to a fault. -/
theorem CommandEnds.of_accepted (h : Accepted read args source shown) {o : Outcome}
    (hrun : (runSource source host).1 = .ok o) :
    CommandEnds read args host log (command read args host log) := by
  rw [command_of_accepted h]
  cases o with
  | failure d =>
    rw [runCommand_of_failure hrun, Reply.failure, ← String.append_assoc]
    exact .failed h.right (.failed h hrun)
  | success v =>
    rcases v.writtenAs_or_unwritable host.sink with ⟨t, hv⟩ | ⟨e, hv⟩
    · rw [runCommand_of_writtenAs hrun hv, String.append_empty]
      exact .answered h hrun hv
    · rw [runCommand_of_unwritable hrun hv, String.append_empty]
      exact .escaped h hrun hv

/-- Where no source is read, and the path is not the reason, the command says so. -/
theorem CommandEnds.of_unread (hargs : ¬ WrongArgs args)
    (hnull : read (sourcePath args) ≠ .error .null) (h : ∀ source, ¬ Reads read args source) :
    CommandEnds read args host log (command read args host log) := by
  rw [command, Options.ofArgs?_of_not_wrongArgs hargs]
  dsimp only [optionsOf]
  rcases hread : read (sourcePath args) with f | bytes
  · cases f with
    | missing => exact .failed hargs (.missing hread)
    | refused words => exact .failed hargs (.unread hread)
    | null => exact absurd hread hnull
  · rcases hdecode : decodeUtf8 bytes with f | text
    · rw [readSource, sourceOfBytes, hdecode]
      exact .failed hargs (.undecoded hread hdecode)
    · exact absurd ⟨bytes, text, hread, hdecode, rfl⟩ (h _)

/-- The command comes to one of these, if the path is one and a source that is run does not come to
a fault. -/
theorem command_ends (hnull : ¬ WrongArgs args → read (sourcePath args) ≠ .error .null)
    (hrun : ∀ source shown, Accepted read args source shown →
      ∃ o, (runSource source host).1 = .ok o) :
    CommandEnds read args host log (command read args host log) := by
  have of_shows {source : String} {shown : Text} (h : Accepted read args source shown) :
      CommandEnds read args host log (command read args host log) := by
    obtain ⟨o, ho⟩ := hrun source shown h
    exact .of_accepted h ho
  by_cases hargs : WrongArgs args
  · rw [command_of_wrongArgs hargs]
    exact .usage hargs
  by_cases hreads : ∃ source, Reads read args source
  · obtain ⟨source, hreads⟩ := hreads
    by_cases htokens : "--tokens" ∈ args
    · rcases hts : tokenize source with d | ts
      · rw [command_of_reads hargs hreads, answerSource,
          if_pos (tokens_optionsOf.2 htokens), showTokens, hts]
        dsimp only [Reply.failure]
        rw [← String.append_assoc]
        exact .failed hargs (.untokenized htokens hreads hts)
      · exact of_shows ⟨hargs, hreads, by rw [Shows, if_pos htokens]; exact ⟨ts, hts, rfl⟩⟩
    · exact of_shows ⟨hargs, hreads, by rw [Shows, if_neg htokens]⟩
  · exact .of_unread hargs (hnull hargs) fun source h ↦ hreads ⟨source, h⟩

/-! ### Asking for the tokens -/

/-- What is shown of the tokens stands in front of all that is written. -/
theorem runCommand_eq_prepend (host : Host) (shown : Text) (source : String) :
    runCommand host shown source =
      { runCommand host [] source with
        stdout := shown ++ (runCommand host [] source).stdout } := by
  unfold runCommand
  rcases runSource source host with ⟨e | o, output⟩
  · rfl
  · cases o with
    | failure d => rfl
    | success v =>
      cases ht : v.text? with
      | none => simp [ht]
      | some t => cases hrefusal : host.sink.refusal? t <;> simp [ht, hrefusal]

/-- The arguments without the one that asks for the tokens. -/
def withoutTokens (args : List String) : List String :=
  args.filter (· ≠ "--tokens")

theorem paths_withoutTokens (args : List String) :
    (withoutTokens args).filter (!isOption ·) = args.filter (!isOption ·) := by
  rw [withoutTokens, List.filter_filter]
  refine List.filter_congr fun a _ ↦ ?_
  have hself : isOption "--tokens" = true := by decide
  by_cases ha : a = "--tokens"
  · simp [ha, hself]
  · simp [ha]

theorem sourcePath_withoutTokens (args : List String) :
    sourcePath (withoutTokens args) = sourcePath args := by
  rw [sourcePath, sourcePath, ← List.head?_filter, ← List.head?_filter, paths_withoutTokens]

theorem not_wrongArgs_withoutTokens (h : ¬ WrongArgs args) : ¬ WrongArgs (withoutTokens args) := by
  rintro (⟨a, ha, hwrong⟩ | hpaths)
  · exact h (.inl ⟨a, (List.mem_filter.1 ha).1, hwrong⟩)
  · rw [paths_withoutTokens] at hpaths
    exact h (.inr hpaths)

/-- Where a source has tokens, showing them adds them to what is written, and changes nothing
else but what is logged. -/
theorem command_eq_prepend {ts : List Token} (hargs : ¬ WrongArgs args)
    (hreads : Reads read args source) (hts : tokenize source = .ok ts)
    (htokens : "--tokens" ∈ args) :
    ∃ r : Reply,
      command read (withoutTokens args) host log =
        { r with stderr := logged log (withoutTokens args) source ++ r.stderr } ∧
      command read args host log =
        ⟨r.exit, tokenDump ts ++ r.stdout, logged log args source ++ r.stderr⟩ := by
  have hshown : Accepted read args source (tokenDump ts) :=
    ⟨hargs, hreads, by rw [Shows, if_pos htokens]; exact ⟨ts, hts, rfl⟩⟩
  have hplain : Accepted read (withoutTokens args) source [] := by
    refine ⟨not_wrongArgs_withoutTokens hargs, ?_, ?_⟩
    · rwa [Reads, sourcePath_withoutTokens]
    · rw [Shows, if_neg (by simp [withoutTokens])]
  refine ⟨runCommand host [] source, command_of_accepted hplain, ?_⟩
  rw [command_of_accepted hshown, runCommand_eq_prepend host (tokenDump ts)]

/-! ### The contract -/

/-- What is to be said of the reply to some arguments. -/
structure CommandContract (read : Option String → Except InputFault (List Nat))
    (args : List String) (host : Host) (log : Options → String → String) (reply : Reply) :
    Prop where
  /-- It ends with two exactly for wrong arguments. -/
  two_iff : reply.exit = .code 2 ↔ WrongArgs args
  /-- Then it says how the command is used, and nothing else, whatever would be read. -/
  two : WrongArgs args → ∀ read', command read' args host log = ⟨.code 2, [], usage ++ "\n"⟩
  /-- It ends with zero exactly if a source is run, and has a value that can be written. -/
  zero_iff : reply.exit = .code 0 ↔ ∃ source shown v t, Accepted read args source shown ∧
    (runSource source host).1 = .ok (.success v) ∧ v.WrittenAs host.sink t
  /-- Then the value is written, behind the tokens that were asked for, the output of the program
  and the banner, and there is no message. -/
  zero : ∀ source shown v t, Accepted read args source shown →
    (runSource source host).1 = .ok (.success v) → v.WrittenAs host.sink t →
      reply.stdout = shown ++ (runSource source host).2 ++ bannerText ++ t ++ [.char '\n'] ∧
      reply.stderr = logged log args source
  /-- It ends with a fault that is not its own to report exactly if a source is run, and has a value
  that cannot be written. -/
  escaped_iff : ∀ e, reply.exit = .escaped e ↔ ∃ source shown v, Accepted read args source shown ∧
    (runSource source host).1 = .ok (.success v) ∧ v.Unwritable host.sink e
  /-- Then all is written that stands before the value, and there is no message. -/
  escaped : ∀ source shown v e, Accepted read args source shown →
    (runSource source host).1 = .ok (.success v) → v.Unwritable host.sink e →
      reply.stdout = shown ++ (runSource source host).2 ++ bannerText ∧
      reply.stderr = logged log args source
  /-- It ends with one in all other cases: the arguments are right, and no source is run that has a
  value. -/
  one_iff : reply.exit = .code 1 ↔ ¬ WrongArgs args ∧ ∀ source shown v,
    Accepted read args source shown → (runSource source host).1 ≠ .ok (.success v)
  /-- Then it says why, in one message, and writes nothing behind the output of the program. -/
  one : reply.exit = .code 1 → Explained read args host log reply
  /-- Where a source has tokens, asking for them puts them in front of what is written, and changes
  nothing else but what is logged. -/
  tokens : ∀ source ts, ¬ WrongArgs args → Reads read args source → tokenize source = .ok ts →
    "--tokens" ∈ args → ∃ r : Reply,
      command read (withoutTokens args) host log =
        { r with stderr := logged log (withoutTokens args) source ++ r.stderr } ∧
      reply = ⟨r.exit, tokenDump ts ++ r.stdout, logged log args source ++ r.stderr⟩

section CommandEnds

variable {reply : Reply}

theorem Explained.exit_eq (h : Explained read args host log reply) : reply.exit = .code 1 := by
  cases h <;> rfl

theorem CommandEnds.wrongArgs (h : CommandEnds read args host log reply)
    (hexit : reply.exit = .code 2) : WrongArgs args := by
  cases h with
  | usage hwrong => exact hwrong
  | failed _ hexplained => exact absurd (hexplained.exit_eq.symm.trans hexit) (by decide)
  | answered => exact absurd hexit (by simp)
  | escaped => exact absurd hexit (by simp)

theorem CommandEnds.exists_answered (h : CommandEnds read args host log reply)
    (hexit : reply.exit = .code 0) :
    ∃ source shown v t, Accepted read args source shown ∧
      (runSource source host).1 = .ok (.success v) ∧ v.WrittenAs host.sink t := by
  cases h with
  | usage => exact absurd hexit (by simp)
  | failed _ hexplained => exact absurd (hexplained.exit_eq.symm.trans hexit) (by decide)
  | answered haccepted hrun hv => exact ⟨_, _, _, _, haccepted, hrun, hv⟩
  | escaped => exact absurd hexit (by simp)

theorem CommandEnds.exists_escaped (h : CommandEnds read args host log reply) {e : Escape}
    (hexit : reply.exit = .escaped e) :
    ∃ source shown v, Accepted read args source shown ∧
      (runSource source host).1 = .ok (.success v) ∧ v.Unwritable host.sink e := by
  cases h with
  | usage => exact absurd hexit (by simp)
  | failed _ hexplained => exact nomatch hexplained.exit_eq.symm.trans hexit
  | answered => exact absurd hexit (by simp)
  | escaped haccepted hrun hv =>
    obtain rfl := Exit.escaped.inj hexit
    exact ⟨_, _, _, haccepted, hrun, hv⟩

theorem CommandEnds.explained (h : CommandEnds read args host log reply)
    (hexit : reply.exit = .code 1) : Explained read args host log reply := by
  cases h with
  | usage => exact absurd hexit (by simp)
  | failed _ hexplained => exact hexplained
  | answered => exact absurd hexit (by simp)
  | escaped => exact absurd hexit (by simp)

/-- A reply that is none of the others is a failure, with the code one. -/
theorem CommandEnds.exit_eq_one (h : CommandEnds read args host log reply)
    (hargs : ¬ WrongArgs args)
    (hnone : ∀ source shown v, Accepted read args source shown →
      (runSource source host).1 ≠ .ok (.success v)) : reply.exit = .code 1 := by
  cases h with
  | usage hwrong => exact absurd hwrong hargs
  | failed _ hexplained => exact hexplained.exit_eq
  | answered haccepted hrun => exact absurd hrun (hnone _ _ _ haccepted)
  | escaped haccepted hrun => exact absurd hrun (hnone _ _ _ haccepted)

end CommandEnds

/-- Whatever is read, and for all arguments whose path is one, the command keeps its contract, if
running the source, where it is run, comes to an outcome. That is so wherever the interpreter is in
memory, whatever stream is the output, and whatever is logged where that is asked for. -/
theorem command_keeps_contract (read : Option String → Except InputFault (List Nat))
    (args : List String) (host : Host) (log : Options → String → String)
    (hnull : ¬ WrongArgs args → read (sourcePath args) ≠ .error .null)
    (hrun : ∀ source shown, Accepted read args source shown →
      ∃ o, (runSource source host).1 = .ok o) :
    CommandContract read args host log (command read args host log) := by
  have hends : CommandEnds read args host log (command read args host log) :=
    command_ends hnull hrun
  have hanswered {source : String} {shown t : Text} {v : Value}
      (haccepted : Accepted read args source shown)
      (hv : (runSource source host).1 = .ok (.success v)) (ht : v.WrittenAs host.sink t) :
      command read args host log = _ :=
    (command_of_accepted haccepted).trans (by rw [runCommand_of_writtenAs hv ht shown])
  have hescaped {source : String} {shown : Text} {v : Value} {e : Escape}
      (haccepted : Accepted read args source shown)
      (hv : (runSource source host).1 = .ok (.success v)) (he : v.Unwritable host.sink e) :
      command read args host log = _ :=
    (command_of_accepted haccepted).trans (by rw [runCommand_of_unwritable hv he shown])
  constructor
  case two_iff => exact ⟨hends.wrongArgs, fun h ↦ by rw [command_of_wrongArgs h]⟩
  case two => exact fun h _ ↦ command_of_wrongArgs h
  case zero_iff =>
    refine ⟨hends.exists_answered, ?_⟩
    rintro ⟨source, shown, v, t, haccepted, hv, ht⟩
    rw [hanswered haccepted hv ht]
  case zero =>
    intro source shown v t haccepted hv ht
    rw [hanswered haccepted hv ht]
    exact ⟨rfl, String.append_empty⟩
  case escaped_iff =>
    refine fun e ↦ ⟨hends.exists_escaped, ?_⟩
    rintro ⟨source, shown, v, haccepted, hv, he⟩
    rw [hescaped haccepted hv he]
  case escaped =>
    intro source shown v e haccepted hv he
    rw [hescaped haccepted hv he]
    exact ⟨rfl, String.append_empty⟩
  case one_iff =>
    refine ⟨fun h ↦ ⟨fun hargs ↦ ?_, fun source shown v haccepted hv ↦ ?_⟩,
      fun ⟨hargs, hnone⟩ ↦ hends.exit_eq_one hargs hnone⟩
    · rw [command_of_wrongArgs hargs] at h
      exact absurd h (by decide)
    · rcases v.writtenAs_or_unwritable host.sink with ⟨t, ht⟩ | ⟨e, he⟩
      · rw [hanswered haccepted hv ht] at h
        exact absurd h (by simp)
      · rw [hescaped haccepted hv he] at h
        exact absurd h (by simp)
  case one => exact hends.explained
  case tokens =>
    exact fun source ts hargs hreads hts htokens ↦ command_eq_prepend hargs hreads hts htokens

/-- A text on the standard input is read, its tokens are shown and its value is written. No file has
the empty path. -/
theorem command_keeps_contract_text :
    let read := Folder.readOr ⟨[], []⟩ [0x22, 0x61, 0x22]
    let host : Host := ⟨0, .utf8⟩
    let log : Options → String → String := fun _ _ ↦ ""
    let shown := command read ["--tokens"] host log
    let missing := command read [""] host log
    CommandContract read ["--tokens"] host log shown ∧ shown.exit = .code 0 ∧ shown.stderr = "" ∧
      (∃ ts, tokenize "\"a\"" = .ok ts ∧
        shown.stdout = tokenDump ts ++ .ofString "\n===== RESULTADO =====\na\n") ∧
      CommandContract read [""] host log missing ∧ sourcePath [""] = some "" ∧
      missing.exit = .code 1 := by
  intro read host log shown missing
  have hreads : Reads read ["--tokens"] "\"a\"" := ⟨[0x22, 0x61, 0x22], _, rfl, by rfl, by rfl⟩
  have hvalue : (runSource "\"a\"" host).1 = .ok (.success (.text (.ofString "a"))) := by rfl
  have houtput : (runSource "\"a\"" host).2 = [] := by rfl
  have hwritten : (Value.text (.ofString "a")).WrittenAs host.sink (.ofString "a") :=
    ⟨rfl, fun _ ↦ by decide⟩
  have hshown : CommandContract read ["--tokens"] host log shown := by
    refine command_keeps_contract read ["--tokens"] host log (fun _ hnull ↦ nomatch hnull) ?_
    intro source dump haccepted
    obtain rfl := Except.ok.inj (haccepted.reads.readSource.symm.trans hreads.readSource)
    exact ⟨_, hvalue⟩
  have hread : read (sourcePath [""]) = .error .missing := by rfl
  have hunread (source : String) : ¬ Reads read [""] source := by
    rintro ⟨bytes, text, hbytes, -⟩
    exact nomatch hread.symm.trans hbytes
  have hmissing : CommandContract read [""] host log missing := by
    refine command_keeps_contract read [""] host log (fun _ hnull ↦ ?_) ?_
    · exact nomatch hread.symm.trans hnull
    · exact fun source dump haccepted ↦ absurd haccepted.reads (hunread source)
  obtain ⟨ts, hts⟩ : ∃ ts, tokenize "\"a\"" = .ok ts := ⟨_, by rfl⟩
  have haccepted : Accepted read ["--tokens"] "\"a\"" (tokenDump ts) := by
    refine ⟨fun h ↦ absurd (Options.ofArgs?_of_wrongArgs h) (by decide), hreads, ?_⟩
    rw [Shows, if_pos List.mem_cons_self]
    exact ⟨ts, hts, rfl⟩
  have hzero := hshown.zero_iff.2 ⟨_, _, _, _, haccepted, hvalue, hwritten⟩
  obtain ⟨hstdout, hstderr⟩ := hshown.zero _ _ _ _ haccepted hvalue hwritten
  rw [houtput, List.append_nil, List.append_assoc, List.append_assoc] at hstdout
  have hone := hmissing.one_iff.2
    ⟨fun h ↦ absurd (Options.ofArgs?_of_wrongArgs h) (by decide),
      fun source _ _ haccepted ↦ absurd haccepted.reads (hunread source)⟩
  exact ⟨hshown, hzero, hstderr, ⟨ts, hts, hstdout⟩, hmissing, rfl, hone⟩

/-- A template filled with a surrogate is a value, but none that can be written in UTF-8. -/
example : (runSource "'%c' % 55296" ⟨0, .utf8⟩).1 = .ok (.success (.text [.surrogate 0])) ∧
    Text.surrogates? [.surrogate 0] = some ⟨.surrogate 0, 0, 1⟩ :=
  ⟨by rfl, by rfl⟩

end Sangria
