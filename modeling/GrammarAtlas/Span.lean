/-!
# Spans

A span is a stretch of source text, given by the byte offset where it starts and
the one where it stops.  Spans come from outside too, so nothing forces the two
ends into order; `Span.Forward` says that they are, and `Span.forward` is the
check that a span is about to be shown.
-/

namespace GrammarAtlas

/-- A stretch of source text in byte offsets, the end not included. -/
structure Span where
  start : Nat
  stop : Nat
  deriving DecidableEq, Repr

/-- Why a piece of source text could not be had. -/
inductive ReadFault where
  /-- The span leaves the source or cuts a character in two. -/
  | unreadable (span : Span)
  /-- The span ends before it starts. -/
  | backwards (span : Span)
  deriving DecidableEq, Repr

namespace Span

/-- The ends are in order. -/
def Forward (s : Span) : Prop := s.start ≤ s.stop

instance (s : Span) : Decidable s.Forward := inferInstanceAs (Decidable (s.start ≤ s.stop))

/-- The span itself when its ends are in order. -/
def forward (s : Span) : Except ReadFault Span :=
  if s.Forward then .ok s else .error (.backwards s)

end Span
end GrammarAtlas
