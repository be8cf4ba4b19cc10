import GrammarAtlas.Finding.Basic
import GrammarAtlas.Name
import GrammarAtlas.Token.Stream

/-!
# Rules

A rule is a name and three token indices: where it starts, the colon in front of
its body, and the semicolon that ends it.  It knows nothing about the text; every
question about the text takes the stream to look into.  That may be the stream
of an older or newer source than the one the rule was found in, so an index that
the stream does not have must not be an error.
-/

namespace GrammarAtlas

/-- The token indices that delimit a rule.  The rule's tokens are those from
`start` up to `stop`, the semicolon at `stop` not included. -/
structure RuleSpan where
  start : Nat
  colon : Nat
  stop : Nat
  deriving DecidableEq, Repr

namespace RuleSpan

/-- The colon lies in the span. -/
def Ordered (s : RuleSpan) : Prop := s.start ≤ s.colon ∧ s.colon < s.stop

instance (s : RuleSpan) : Decidable s.Ordered :=
  inferInstanceAs (Decidable (s.start ≤ s.colon ∧ s.colon < s.stop))

/-- Why a span does not delimit a rule. -/
inductive Fault where
  /-- The colon lies outside. -/
  | disordered (span : RuleSpan)
  /-- The stream has no token at the span's end. -/
  | pastStream (index size : Nat)
  deriving DecidableEq, Repr

/-- The wording of a fault. -/
def Fault.message : Fault → Text
  | .disordered s =>
    "invalid rule span: start ".toList ++ Text.decimal s.start ++ ", colon ".toList ++
      Text.decimal s.colon ++ ", end ".toList ++ Text.decimal s.stop
  | .pastStream index size =>
    "token index ".toList ++ Text.decimal index ++ " out of range (stream has ".toList ++
      Text.decimal size ++ " tokens)".toList

end RuleSpan

/-- A stretch of a grammar's list of references. -/
structure ReferenceRange where
  start : Nat := 0
  stop : Nat := 0
  deriving DecidableEq, Repr

/-- A rule of a grammar. -/
structure Rule where
  name : Text
  span : RuleSpan
  /-- Shown unfolded by the editor. -/
  expanded : Bool := true
  /-- The debugger stops here. -/
  breakpoint : Bool := false
  /-- Some alternative starts with the rule's own name. -/
  leftRecursive : Bool := false
  /-- What an analysis had to say about the rule. -/
  findings : List Finding := []
  /-- Where the grammar keeps the references made in the body. -/
  references : ReferenceRange := {}
  deriving DecidableEq, Repr

namespace Rule

/-- A rule over a span of a stream, with every mark at its default. -/
def make (name : Text) (span : RuleSpan) (s : TokenStream) : Except RuleSpan.Fault Rule :=
  if ¬ span.Ordered then .error (.disordered span)
  else if s.size ≤ span.stop then .error (.pastStream span.stop s.size)
  else .ok { name, span }

/-- What the rule describes. -/
def kind (r : Rule) : RuleKind := .ofName r.name

/-- Whether the rule describes a token. -/
def isLexer (r : Rule) : Bool := r.kind = .lexer

/-- The number that stands for the rule outside the program. -/
def persistentId (r : Rule) : Nat := nameNumber r.name

/-- The rule with an older rule's marks of the user. -/
def restoreFrom (r old : Rule) : Rule :=
  { r with expanded := old.expanded, breakpoint := old.breakpoint }

/-- The message of the finding at an index. -/
def findingMessage? (r : Rule) (i : Nat) : Option Text := (r.findings[i]?).map (·.message)

/-- The messages of the findings, each on a line. -/
def findingSummary (r : Rule) : Text := Text.join ['\n'] (r.findings.map (·.message))

/-- The rule's tokens, as far as the stream has them. -/
def tokens (r : Rule) (s : TokenStream) : List Token := s.slice r.span.start r.span.stop

/-- The byte where the rule starts. -/
def startOffset (r : Rule) (s : TokenStream) : Nat :=
  ((s.get? r.span.start).map (·.span.start)).getD 0

/-- The byte behind the semicolon. -/
def stopOffset (r : Rule) (s : TokenStream) : Nat :=
  ((s.get? r.span.stop).map (·.span.stop)).getD 0

/-- Number of bytes from the start to behind the semicolon. -/
def byteLength (r : Rule) (s : TokenStream) : Nat := r.stopOffset s - r.startOffset s

/-- Whether an offset lies in the rule, both ends included. -/
def containsOffset (r : Rule) (s : TokenStream) (offset : Nat) : Bool :=
  r.startOffset s ≤ offset && offset ≤ r.stopOffset s

end Rule
end GrammarAtlas
