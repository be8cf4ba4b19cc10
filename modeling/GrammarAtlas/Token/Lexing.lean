import GrammarAtlas.Diagnostic.Basic
import GrammarAtlas.Lexeme.Next
import GrammarAtlas.Token.Stream

/-!
# From a source to its tokens

Lexing takes one longest match after the other.  Trivia is left out.  Pieces that
match nothing are collected: their run becomes one garbage token, made when the
next piece that matches begins or the source ends, and reported with its text.
An opening brace makes one token with its block; a block whose brace never closes
runs to the end of the source and is reported at its opening brace.  Nothing is
fatal.

What is emitted, tokens and reports in one list, is in order of position.
-/

namespace GrammarAtlas

/-- Where the lines of a source start. -/
structure LineIndex where
  starts : List Nat
  deriving DecidableEq, Repr

namespace LineIndex

/-- The lines of a source start at its beginning and behind every line feed. -/
def ofSource (source : Text) : LineIndex :=
  ⟨0 :: (source.utf8.zipIdx.filter (·.1 = '\n'.toUInt8)).map (·.2 + 1)⟩

/-- The line that a byte lies on. -/
def lineOf (lines : LineIndex) (offset : Nat) : Nat :=
  (lines.starts.takeWhile (· ≤ offset)).length - 1

end LineIndex

/-- What lexing gives: tokens and things to report. -/
inductive Emission where
  | token (t : Token)
  | report (d : Diagnostic)
  deriving DecidableEq, Repr

namespace Emission

/-- The token, if it is one. -/
def token? : Emission → Option Token
  | token t => some t
  | report _ => none

/-- The report, if it is one. -/
def report? : Emission → Option Diagnostic
  | token _ => none
  | report d => some d

/-- A token of a kind with its lines; the last line is that of the last byte. -/
def ofKind (lines : LineIndex) (kind : TokenKind) (span : Span) : Emission :=
  .token ⟨kind, span, lines.lineOf span.start, lines.lineOf (max (span.stop - 1) span.start)⟩

/-- A run of garbage, reported with its text. -/
def garbage (source : Text) (lines : LineIndex) (span : Span) : List Emission :=
  let found := (source.slice? span.start span.stop).getD []
  [.report (.report .unexpectedCharacter (some span) (some ("`".toList ++ found ++ "`".toList))),
    ofKind lines .garbage span]

/-- A block, which is reported at its opening brace if it is not closed. -/
def block (lines : LineIndex) (span : Span) (closed : Bool) : List Emission :=
  (if closed then [] else
    [.report (.report .unterminatedBlock (some ⟨span.start, span.start + 1⟩) none)]) ++
    [ofKind lines .block span]

end Emission

namespace TokenStream

/-- Ends a run of garbage, if there is one. -/
def flush (source : Text) (lines : LineIndex) (garbage : Option Nat) (stop : Nat) :
    List Emission :=
  match garbage with
  | none => []
  | some start => Emission.garbage source lines ⟨start, stop⟩

/-- Lexes the rest of a source from an offset.  `garbage` is where the run of
garbage in front of the offset starts, if there is one. -/
def emit (source : Text) (lines : LineIndex) (offset : Nat) (garbage : Option Nat) :
    Text → List Emission
  | [] => flush source lines garbage (Text.byteSize source)
  | c :: t =>
    let kind := (Lexeme.next c t).1.kind
    let rest := (Lexeme.next c t).2
    let stop := offset + Text.byteSize (Lexeme.next c t).1.text
    if kind = .garbage then emit source lines stop (garbage <|> some offset) rest
    else if kind = .braceOpen then
      let e := Block.scan 1 none rest.utf8
      flush source lines garbage offset ++ Emission.block lines ⟨offset, stop + e.size⟩ e.closed ++
        emit source lines (stop + e.size) none ((rest.dropBytes? e.size).getD [])
    else if kind.isTrivia then
      flush source lines garbage offset ++ emit source lines stop none rest
    else
      flush source lines garbage offset ++ Emission.ofKind lines kind ⟨offset, stop⟩ ::
        emit source lines stop none rest
termination_by t => t.length
decreasing_by
  · exact Lexeme.length_next_lt c t
  · refine Nat.lt_of_le_of_lt ?_ (Lexeme.length_next_lt c t)
    cases h : (Lexeme.next c t).2.dropBytes? e.size with
    | none => exact Nat.zero_le _
    | some r => exact Text.length_dropBytes?_le h
  · exact Lexeme.length_next_lt c t
  · exact Lexeme.length_next_lt c t

/-- All that lexing gives for a source. -/
def emissions (source : Text) : List Emission :=
  emit source (.ofSource source) 0 none source

/-- The tokens of a source. -/
def lex (source : Text) : TokenStream := ⟨source, (emissions source).filterMap (·.token?)⟩

/-- What lexing reports, in order of position. -/
def lexDiagnostics (source : Text) : Diagnostics := (emissions source).filterMap (·.report?)

end TokenStream
end GrammarAtlas
