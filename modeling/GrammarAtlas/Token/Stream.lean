import GrammarAtlas.Lexeme.Basic
import GrammarAtlas.Span

/-!
# Token streams

A token is a kind, a span and the lines the span touches; its text is read from
the source when it is asked for.  A stream owns one source with its tokens, and
everything else refers to tokens by index.

Streams can be put together by hand, so a span need not fit the source.  Reading
such a token is a `ReadFault`; an index past the end is not, it reads as an
empty text.
-/

namespace GrammarAtlas

/-- A token of some source.  Lines count from zero; `stopLine` is the line of
the token's last byte. -/
structure Token where
  kind : TokenKind
  span : Span
  startLine : Nat
  stopLine : Nat
  deriving DecidableEq, Repr

/-- The tokens of one source, in order. -/
structure TokenStream where
  source : Text
  tokens : List Token
  deriving DecidableEq, Repr

namespace TokenStream

/-- The stream of an empty source. -/
def empty : TokenStream := ⟨[], []⟩

/-- Number of tokens. -/
def size (s : TokenStream) : Nat := s.tokens.length

/-- The token at an index. -/
def get? (s : TokenStream) (i : Nat) : Option Token := s.tokens[i]?

/-- The tokens with indices from `start` up to `stop`, as far as there are any. -/
def slice (s : TokenStream) (start stop : Nat) : List Token :=
  (s.tokens.take stop).drop start

/-- The same tokens, each with its index. -/
def indexed (s : TokenStream) (start stop : Nat) : List (Nat × Token) :=
  ((s.slice start stop).zipIdx start).map Prod.swap

/-- The source between two byte offsets. -/
def read (s : TokenStream) (span : Span) : Except ReadFault Text :=
  match s.source.slice? span.start span.stop with
  | some t => .ok t
  | none => .error (.unreadable span)

/-- Whether the source between two byte offsets can be read. -/
def canRead (s : TokenStream) (span : Span) : Bool :=
  (s.source.slice? span.start span.stop).isSome

/-- The text of a token. -/
def text (s : TokenStream) (t : Token) : Except ReadFault Text := s.read t.span

/-- The text of the token at an index, empty where there is none. -/
def textAt (s : TokenStream) (i : Nat) : Except ReadFault Text :=
  match s.get? i with
  | some t => s.text t
  | none => .ok []

/-- The source from the start of one token to the end of another, with all that
lies between; empty if either is missing or the second ends before the first
starts. -/
def textBetween (s : TokenStream) (first last : Nat) : Except ReadFault Text :=
  match s.get? first, s.get? last with
  | some a, some b =>
    if a.span.start ≤ b.span.stop then s.read ⟨a.span.start, b.span.stop⟩ else .ok []
  | _, _ => .ok []

/-- Every token can be read. -/
def Readable (s : TokenStream) : Prop := ∀ t ∈ s.tokens, s.canRead t.span

instance (s : TokenStream) : Decidable s.Readable := inferInstanceAs (Decidable (∀ _ ∈ _, _))

end TokenStream
end GrammarAtlas
