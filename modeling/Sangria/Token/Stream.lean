import Sangria.Token.Layout

/-!
# The token stream of a source

A `TokenStream` hands out the tokens of a source one at a time. It reads ahead no further than it
has to: one lexeme may add several tokens, which wait in a queue, and nothing is read while the
queue holds any. A fault stands in the queue behind the tokens before it, is handed out once, and
ends the stream.

`TokenStream.pull` takes one token, `TokenStream.drain` all that remain. Taking tokens singly or all
at once gives the same ones, because both are made of `TokenStream.read`.
-/

namespace Sangria

/-- A token of a source. -/
structure Token where
  /-- The kind. -/
  kind : Kind
  /-- The text, exactly as written. -/
  lexeme : String
  /-- Where it starts. -/
  position : Position
  deriving DecidableEq, Repr

/-- What a stream hands out: a token, or the fault that ends it. -/
abbrev Delivery := Except Diagnostic Lexeme

/-- The tokens of a source that are still to be handed out. -/
structure TokenStream where
  /-- The whole source. -/
  text : List Char
  /-- Where reading goes on. -/
  scanner : Scanner
  /-- The layout so far. -/
  layout : Layout
  /-- What was read and not handed out. -/
  queue : List Delivery
  /-- Whether reading is over. -/
  finished : Bool

namespace TokenStream

/-- The stream of a source. -/
def ofText (text : List Char) : TokenStream :=
  ⟨text, .ofText text, .initial, [], false⟩

/-- The stream before there is a source: nothing to hand out. -/
def empty : TokenStream :=
  { ofText [] with finished := true }

/-- Put a fault at an offset into the queue and stop reading. -/
def fail (s : TokenStream) (f : LexicalFault) (offset : Nat) : TokenStream :=
  { s with queue := s.queue ++ [.error (f.diagnostic s.text offset)], finished := true }

/-- Put tokens into the queue. -/
def push (s : TokenStream) (tokens : List Lexeme) : TokenStream :=
  { s with queue := s.queue ++ tokens.map .ok }

/-- Read one lexeme and put what it adds into the queue. -/
def read (s : TokenStream) : TokenStream :=
  match s.scanner.scan with
  | .lexeme t next =>
    let s := { s with scanner := next }
    match s.layout.take s.text t with
    | (tokens, .ok layout) => { s.push tokens with layout := layout }
    | (tokens, .error f) => (s.push tokens).fail f t.offset
  | .illegal c next => { s with scanner := next }.fail (.ofChar c) next.offset
  | .finished next =>
    { s with scanner := next, finished := true }.push (s.layout.close next.line s.text.length)

/-- Read until the queue holds something or reading is over, at most a number of times. -/
def fill : Nat → TokenStream → TokenStream
  | 0, s => s
  | n + 1, s => if s.queue.isEmpty ∧ ¬ s.finished then fill n s.read else s

/-- How many reads finish a stream: each takes a character or finds the end. -/
def reads (s : TokenStream) : Nat :=
  s.scanner.rest.length + 1

/-- Take the next token or the fault in its place; nothing is left once the stream is over. -/
def pull (s : TokenStream) : Option Delivery × TokenStream :=
  let s := s.fill s.reads
  match s.queue with
  | [] => (none, s)
  | d :: queue => (some d, { s with queue := queue })

/-- Take everything that remains, in at most a number of reads. -/
def drainIn : Nat → TokenStream → List Delivery × TokenStream
  | 0, s => (s.queue, { s with queue := [] })
  | n + 1, s =>
    if s.finished then (s.queue, { s with queue := [] })
    else
      let later := drainIn n { s with queue := [] }.read
      (s.queue ++ later.1, later.2)

/-- Take everything that remains. -/
def drain (s : TokenStream) : List Delivery × TokenStream :=
  drainIn s.reads s

/-- A lexeme with its position in the source. -/
def token (text : List Char) (t : Lexeme) : Token :=
  ⟨t.kind, t.text, .ofOffset text t.offset⟩

/-- The token at the end of a source, of which there are as many as are asked for. -/
def eofToken (text : List Char) : Token :=
  ⟨.eof, "", .ofEnd text⟩

/-- Take the next token with its position; the end of the source is one too. -/
def next (s : TokenStream) : Except Diagnostic Token × TokenStream :=
  match s.pull with
  | (none, s) => (.ok (eofToken s.text), s)
  | (some d, s) => (d.map (token s.text), s)

/-- Take every token that remains, with the end of the source behind them. -/
def remaining (s : TokenStream) : Except Diagnostic (List Token) × TokenStream :=
  let (deliveries, s) := s.drain
  ((deliveries.mapM id).map fun ts ↦ ts.map (token s.text) ++ [eofToken s.text], s)

end TokenStream

/-- Every token of a source, with the end of the source behind them. -/
def tokenize (source : String) : Except Diagnostic (List Token) :=
  (TokenStream.ofText source.toList).remaining.1

end Sangria
