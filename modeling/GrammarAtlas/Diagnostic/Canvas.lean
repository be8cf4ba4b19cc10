import GrammarAtlas.Diagnostic.Basic

/-!
# Styled rows of text

A report is drawn as rows, and a row is a sequence of pieces with a style each.
Plain rows drop the styles; coloured rows put the escape sequence of a style in
front of each run of pieces in it, and the reset behind.
-/

namespace GrammarAtlas

/-- What a piece of a report is, which decides how it looks in colour. -/
inductive Style where
  | plain
  /-- Belongs to the severity of the report. -/
  | level (severity : Severity)
  /-- The headline. -/
  | title
  /-- Line numbers and the rules beside the source. -/
  | gutter
  deriving DecidableEq, Repr

/-- The escape sequence that switches a style on. -/
def Style.code : Style → Text
  | .plain => []
  | .level .error => "\x1b[1m\x1b[91m".toList
  | .level .warning => "\x1b[1m\x1b[33m".toList
  | .title => "\x1b[1m".toList
  | .gutter => "\x1b[1m\x1b[94m".toList

/-- The escape sequence that switches a style off. -/
def Style.reset : Style → Text
  | .plain => []
  | _ => "\x1b[0m".toList

/-- A text and its style. -/
structure Piece where
  style : Style
  text : Text
  deriving DecidableEq, Repr

/-- Pieces side by side. -/
abbrev Row := List Piece

namespace Row

/-- A piece with the column where it starts. -/
abbrev Placed := Nat × Style × Text

/-- A row of pieces at their columns, with spaces in the gaps.  The pieces come
in order; `here` is the column that has been reached. -/
def ofPlaced (here : Nat) : List Placed → Row
  | [] => []
  | (column, style, text) :: ps =>
    if text.isEmpty then ofPlaced here ps
    else
      ⟨.plain, List.replicate (column - here) ' '⟩ :: ⟨style, text⟩ ::
        ofPlaced (max here column + text.length) ps

/-- The row without styles. -/
def plain (r : Row) : Text := r.flatMap (·.text)

/-- The row with styles.  `current` is the style that is switched on. -/
def colored (current : Style) : Row → Text
  | [] => current.reset
  | p :: ps =>
    if p.text.isEmpty then colored current ps
    else if p.style = current then p.text ++ colored current ps
    else current.reset ++ p.style.code ++ p.text ++ colored p.style ps

end Row

/-- Rows one below the other. -/
def Row.renderAll (useColor : Bool) (rows : List Row) : Text :=
  Text.join ['\n'] (rows.map fun r => if useColor then r.colored .plain else r.plain)

end GrammarAtlas
