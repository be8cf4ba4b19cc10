import GrammarAtlas.Span
import GrammarAtlas.Text.Columns

/-!
# Source lines and places in them

A source is a sequence of lines, each with the place where it starts and the
place behind its ending, which is a line feed, possibly with a carriage return in
front, or nothing at the end of the source.  A place in the source is known by
its line, by the number of characters in front of it on the line, and by the
column where it is shown.
-/

namespace GrammarAtlas

/-- A line of a source, without its ending. -/
structure SourceLine where
  text : Text
  /-- The byte where the line starts. -/
  start : Nat
  /-- The byte behind the ending. -/
  stop : Nat
  /-- Number of bytes of the ending. -/
  ending : Nat
  deriving DecidableEq, Repr

/-- A place in a source. -/
structure SourcePlace where
  line : Nat
  /-- Number of characters in front of it on the line. -/
  char : Nat
  /-- The column where it is shown. -/
  column : Nat
  deriving DecidableEq, Repr

namespace SourceLine

/-- A line that has a line feed behind it. -/
def ended (start : Nat) (line : Text) : SourceLine :=
  let stop := start + Text.byteSize line + 1
  if line.getLast? = some '\r' then ⟨line.dropLast, start, stop, 2⟩ else ⟨line, start, stop, 1⟩

/-- The lines of a text that starts at a byte, of which `line` has been read. -/
def splitFrom (start : Nat) (line : Text) : Text → List SourceLine
  | [] =>
    if line.isEmpty then [] else [⟨line, start, start + Text.byteSize line, 0⟩]
  | c :: t =>
    if c = '\n' then ended start line :: splitFrom (start + Text.byteSize line + 1) [] t
    else splitFrom start (line ++ [c]) t

/-- The line of an empty source. -/
def blank : SourceLine := ⟨[], 0, 0, 0⟩

/-- The lines of a source.  The empty source has one. -/
def split (source : Text) : List SourceLine :=
  if source.isEmpty then [blank] else splitFrom 0 [] source

/-- The index of the line that a byte lies on, or of the last line. -/
def indexOf (lines : List SourceLine) (byte : Nat) : Nat :=
  (lines.findIdx? fun l => l.start ≤ byte && byte < l.stop).getD (lines.length - 1)

/-- The place of a byte.  What lies behind the text of a line is shown at its
end, and one character further on. -/
def place (lines : List SourceLine) (byte : Nat) : Except ReadFault SourcePlace :=
  let i := indexOf lines byte
  let line := lines.getD i blank
  let size := Text.byteSize line.text
  match Text.takeBytes? line.text (min (byte - line.start) size) with
  | none => .error (.unreadable ⟨byte, byte⟩)
  | some front =>
    let beyond := if size < byte - line.start then 1 else 0
    .ok ⟨i, front.length + beyond, Columns.textWidth front⟩

/-- The places of the ends of a span.  A span over several lines that ends in a
line's ending ends one column further on. -/
def places (lines : List SourceLine) (span : Span) :
    Except ReadFault (SourcePlace × SourcePlace) := do
  let start ← place lines span.start
  if span.start = span.stop then return (start, start)
  let stop ← place lines span.stop
  let line := lines.getD stop.line blank
  if start.line ≠ stop.line ∧ line.stop - line.ending < span.stop then
    return (start, { stop with column := stop.column + 1 })
  else return (start, stop)

/-- The number of lines in a text, an empty one at its end not counted. -/
def count (t : Text) : Nat :=
  t.count '\n' + (if t.isEmpty ∨ t.getLast? = some '\n' then 0 else 1)

end SourceLine
end GrammarAtlas
