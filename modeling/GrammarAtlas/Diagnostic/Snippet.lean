import GrammarAtlas.Diagnostic.Canvas
import GrammarAtlas.Diagnostic.SourceLines

/-!
# Snippets of source with a mark

A diagnostic with a place is shown as a headline, the lines of the place, and a
mark with the message.  A place on one line is underlined with carets.  A place
over several lines is bracketed on the left: the bracket opens on the first line,
with a slash if nothing but blanks precedes the place and with an underline of its
own otherwise, and it closes below the last line.

Of a long place only the first lines and the last are shown, and dots stand for
the rest.  Of lines that are wider than the report only the part around the mark
is shown.
-/

namespace GrammarAtlas
namespace Snippet

/-! ## The window on wide lines -/

/-- Number of columns of a report. -/
def reportWidth : Nat := 140

/-- What stands for a part that is left out. -/
def dots : Text := "...".toList

/-- The columns of the source lines that are shown. -/
structure Window where
  left : Nat
  right : Nat
  width : Nat
  deriving DecidableEq, Repr

namespace Window

/-- The window for a mark.  `blank` is the number of blank columns in front of all
lines, `markLeft` and `markRight` are the ends of the mark, `labelRight` is the end
of its label, `longest` the length of the longest line and `width` the room.
Six columns more than needed are kept on either side, and blanks are cut only if
there are more than twenty. -/
def fit (blank markLeft markRight labelRight longest width : Nat) : Window :=
  let blank := blank - 6
  let markLeft := markLeft - 6
  let markRight := markRight + 6
  let labelRight := labelRight + 6
  let left := if 20 < blank then blank - 16 else 0
  let right := max longest left
  if right - left ≤ width then ⟨left, right, width⟩
  else if labelRight - blank ≤ width then ⟨blank, blank + width, width⟩
  else if labelRight - markLeft ≤ width then
    let left := markLeft - (width - (labelRight - markLeft)) / 2
    ⟨left, left + width, width⟩
  else if markRight - markLeft ≤ width then
    let left := markLeft - (width - (markRight - markLeft)) / 5 * 2
    ⟨left, left + width, width⟩
  else ⟨markLeft, markRight, width⟩

/-- The last column that is shown of a line of some size. -/
def rightOf (w : Window) (size : Nat) : Nat :=
  if size - w.left ≤ w.width then size else min size w.right

end Window

/-- Drops characters while the columns passed are at most `n`. -/
def dropColumns (n passed : Nat) : Text → Text
  | [] => []
  | c :: t =>
    if passed + Columns.width c ≤ n then dropColumns n (passed + Columns.width c) t else c :: t

/-- Takes characters while the columns taken are at most `n`. -/
def takeColumns (n taken : Nat) : Text → Text
  | [] => []
  | c :: t =>
    if taken + Columns.width c ≤ n then c :: takeColumns n (taken + Columns.width c) t else []

/-- The shortest front of a text that is at least as wide as the dots, as a number
of characters and of columns. -/
def dotsFront (columns : Nat) : Text → Nat × Nat
  | [] => (0, columns)
  | c :: t =>
    let columns := columns + Columns.width c
    if dots.length ≤ columns then (1, columns)
    else
      let (n, total) := dotsFront columns t
      (n + 1, total)

/-- A line as it is seen through the window, from a column on, and the number of
columns by which marks below it move to the left. -/
def viewLine (w : Window) (column : Nat) (line : Text) : List Row.Placed × Nat :=
  let line := Columns.shownText line
  let size := Text.byteSize line
  let left := min w.left size
  let right := w.rightOf size
  let code := takeColumns (right - left) 0 (dropColumns left 0 line)
  let (skip, skipColumns) := if 0 < w.left then dotsFront 0 code else (0, 0)
  let shift := if 0 < w.left then left - (skipColumns - dots.length) else left
  let front : List Row.Placed := if 0 < w.left then [(column, .gutter, dots)] else []
  let rest := code.drop skip
  let start := column + skipColumns
  if right < size then
    let (cut, _) := dotsFront 0 code.reverse
    let kept := rest.take (rest.length - cut)
    (front ++ [(start, .plain, kept), (start + kept.length, .gutter, dots)], shift)
  else (front ++ [(start, .plain, rest)], shift)

/-! ## Rows -/

/-- What all rows of a snippet share. -/
structure Layout where
  /-- Number of digits of the greatest line number. -/
  digits : Nat
  /-- Whether a bracket stands between the gutter and the source. -/
  bracket : Bool
  level : Style
  lines : List SourceLine
  window : Window
  deriving DecidableEq, Repr

namespace Layout

variable (l : Layout)

/-- The column of the gutter's rule. -/
def rule : Nat := l.digits + 1

/-- The column of the bracket. -/
def bracketColumn : Nat := l.digits + 3

/-- The column where source lines start. -/
def codeColumn : Nat := l.bracketColumn + if l.bracket then 2 else 0

/-- The rule of the gutter. -/
def rulePiece : Row.Placed := (l.rule, .gutter, ['|'])

/-- A row with nothing but the rule. -/
def emptyRow : Row := Row.ofPlaced 0 [l.rulePiece]

/-- The number of a line, which counts from one, to the right of its column. -/
def numberPiece (line : Nat) : Row.Placed :=
  let number := Text.decimal (line + 1)
  (0, .gutter, List.replicate (l.digits - number.length) ' ' ++ number)

/-- A source line beside a part of the bracket. -/
def sourceRow (line : Nat) (bracket : Text) : Row :=
  let text := (l.lines.getD line .blank).text
  Row.ofPlaced 0 ([l.numberPiece line, l.rulePiece, (l.bracketColumn, l.level, bracket)] ++
    (viewLine l.window l.codeColumn text).1)

/-- By how much marks below a line move to the left. -/
def shift (line : Nat) : Nat :=
  (viewLine l.window l.codeColumn (l.lines.getD line .blank).text).2

/-- A run of one character. -/
def run (c : Char) (start stop : Nat) : Text := List.replicate (stop - start) c

/-- The row of carets below a line, with the label behind them. -/
def caretRow (line start stop : Nat) (label : Text) : Row :=
  let shift := l.shift line
  let first := l.codeColumn + start - shift
  Row.ofPlaced 0 [l.rulePiece, (first, l.level, run '^' start stop),
    (l.codeColumn + (stop + 1 - shift), l.level, label)]

/-- The row below the first line, where the bracket opens. -/
def openRow (line start : Nat) : Row :=
  let caret := l.codeColumn + start - l.shift line
  Row.ofPlaced 0 [l.rulePiece,
    (l.bracketColumn + 1, l.level, run '_' (l.bracketColumn + 1) caret ++ ['^'])]

/-- The row below the last line, where the bracket closes. -/
def closeRow (line stop : Nat) (label : Text) : Row :=
  let shift := l.shift line
  let caret := l.codeColumn + (stop - 1) - shift
  Row.ofPlaced 0 [l.rulePiece, (l.bracketColumn, l.level, ['|']),
    (l.bracketColumn + 1, l.level, run '_' (l.bracketColumn + 1) caret ++ ['^']),
    (l.codeColumn + ((if stop = 0 then 2 else stop + 1) - shift), l.level, label)]

/-- The row that stands for lines left out. -/
def dotsRow : Row :=
  Row.ofPlaced 0 [(0, .gutter, dots), (l.bracketColumn, l.level, ['|'])]

end Layout

/-! ## Which lines are shown -/

/-- A line that tells little: blank, a lone bracket, or a comment that is no
documentation. -/
def isDull (t : Text) : Bool :=
  let t := Columns.trim t
  (t.isEmpty || ["\x7b".toList, "\x7d".toList, ['('], [')'], ['['], [']']].contains t) ||
    ("//".toList.isPrefixOf t && !("///".toList.isPrefixOf t || "//!".toList.isPrefixOf t))

/-- The lines between the first and the last that are shown: up to three behind
the first without dull ones at their end, and the one before the last. -/
def innerLines (lines : List SourceLine) (first last : Nat) : List Nat :=
  let dull (i : Nat) : Bool := isDull (lines.getD i .blank).text
  let middle := min (first + 4) last
  let telling := (List.range' first (middle - first)).filter (!dull ·)
  let stop := (telling.getLast?.map (· + 1)).getD first
  let near := List.range' (first + 1) (stop - (first + 1))
  if middle < last - 1 ∧ ¬ dull (last - 1) then near ++ [last - 1] else near

/-- The rows of some lines beside the bracket, below line `above`.  A single line
that is left out is shown after all. -/
def innerRows (l : Layout) (above : Nat) : List Nat → List Row
  | [] => []
  | i :: is =>
    let gap : List Row :=
      if i = above + 2 then [l.sourceRow (above + 1) ['|']]
      else if above + 2 < i then [l.dotsRow]
      else []
    gap ++ l.sourceRow i ['|'] :: innerRows l i is

/-- The rows of a place over several lines. -/
def bracketRows (l : Layout) (start stop : SourcePlace) (label : Text) : List Row :=
  let front := ((l.lines.getD start.line .blank).text).take start.column
  let opening : List Row :=
    if front.all Columns.isSpace then [l.sourceRow start.line ['/']]
    else [l.sourceRow start.line [], l.openRow start.line start.column]
  opening ++ innerRows l start.line (innerLines l.lines start.line stop.line ++ [stop.line]) ++
    [l.closeRow stop.line stop.column label]

/-! ## The whole snippet -/

/-- The headline: the severity and the message.  Further lines of the message are
indented. -/
def headline (severity : Severity) (message : Text) : List Row :=
  let indent := severity.text.length + 2
  match (Columns.shownText message).splitOn '\n' with
  | [] => []
  | first :: rest =>
    Row.ofPlaced 0 [(0, .level severity, severity.text),
        (severity.text.length, .title, ": ".toList ++ first)] ::
      rest.map fun line =>
        Row.ofPlaced 0 [(0, .plain, List.replicate indent ' '), (indent, .title, line)]

/-- The row that tells the file, the line and the column. -/
def pathRow (l : Layout) (path : Text) (start : SourcePlace) : Row :=
  let colon := ":".toList
  Row.ofPlaced 0 [(l.digits, .gutter, "--> ".toList),
    (l.digits + 4, .plain, path ++ colon ++ Text.decimal (start.line + 1) ++ colon ++
      Text.decimal (start.char + 1))]

/-- The window for a place, from the first and last line of it, which are the
lines with a mark. -/
def windowFor (lines : List SourceLine) (shown : List Nat) (start stop : SourcePlace)
    (label : Text) (codeColumn : Nat) : Window :=
  let texts := shown.map fun i => (lines.getD i .blank).text
  let indents := (texts.filter (·.any (!Columns.isSpace ·))).map fun t =>
    Columns.textWidth (t.takeWhile Columns.isSpace)
  Window.fit (indents.min?.getD 0) (min start.column stop.column) (max start.column stop.column)
    (max start.column (stop.column + Columns.textWidth label + 1))
    ((texts.map Text.byteSize).max?.getD 0) (reportWidth - codeColumn)

/-- The range that is marked for a diagnostic's range: at least one byte where
there is one, and nothing behind the end of the source. -/
def markedSpan (range : Span) (size : Nat) : Span :=
  if range.start = range.stop then ⟨range.start, min (range.start + 1) size⟩
  else ⟨range.start, min range.stop size⟩

/-- A source with its place marked. -/
def rows (source : Text) (path : Option Text) (severity : Severity) (message : Text)
    (range : Span) : Except ReadFault (List Row) := do
  let size := Text.byteSize source
  let span := markedSpan range size
  let lines := SourceLine.split source
  let (start, stop) ← SourceLine.places lines span
  let front ← match Text.takeBytes? source (min span.stop size) with
    | some t => pure t
    | none => throw (.unreadable span)
  let digits := (Text.decimal (max (SourceLine.count front) 1)).length
  let bracket : Bool := start.line ≠ stop.line
  let stop :=
    if start.line = stop.line ∧ start.column = stop.column then
      { stop with column := stop.column + 1 }
    else stop
  let shown :=
    if bracket then start.line :: innerLines lines start.line stop.line ++ [stop.line]
    else [start.line]
  let codeColumn := digits + 3 + if bracket then 2 else 0
  let window := windowFor lines shown start stop message codeColumn
  let l : Layout := { digits, bracket, level := .level severity, lines, window }
  let body :=
    if bracket then bracketRows l start stop message
    else [l.sourceRow start.line [], l.caretRow start.line start.column stop.column message]
  return headline severity message ++ (path.map fun p => pathRow l p start).toList ++
    l.emptyRow :: body

end Snippet
end GrammarAtlas
