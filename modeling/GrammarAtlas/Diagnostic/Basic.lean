import GrammarAtlas.Text.Basic
import GrammarAtlas.Span

/-!
# Diagnostics

A diagnostic is a finding that comes with a degraded result and never stops the
work: text that was skipped, a rule that was left out, a graph that is missing.
It has a kind, possibly a place in the source, and a message.  The kind decides
the severity, the hint and the wording; a detail given by the reporter goes into
the kind's template.
-/

namespace GrammarAtlas

/-- How bad a diagnostic is. -/
inductive Severity where
  | error
  | warning
  deriving DecidableEq, Repr

/-- The word for a severity. -/
def Severity.text : Severity → Text
  | .error => "error".toList
  | .warning => "warning".toList

/-- What a diagnostic is about, errors before warnings. -/
inductive DiagnosticKind where
  | unterminatedBlock
  | unexpectedCharacter
  | malformedRule
  | unresolvedRule
  | emptyDiagnosticPath
  deriving DecidableEq, Repr

/-- A wording with one hole for a detail. -/
structure Template where
  before : Text
  after : Text
  deriving DecidableEq, Repr

namespace Template

/-- The wording with the detail in the hole. -/
def fill (t : Template) (detail : Text) : Text := t.before ++ detail ++ t.after

/-- The wording with the hole drawn as an empty pair of braces. -/
def text (t : Template) : Text := t.fill ['\x7b', '\x7d']

end Template

namespace DiagnosticKind

/-- Position in the order of kinds. -/
def rank : DiagnosticKind → Nat
  | .unterminatedBlock => 0
  | .unexpectedCharacter => 1
  | .malformedRule => 2
  | .unresolvedRule => 3
  | .emptyDiagnosticPath => 4

/-- The kinds of a list in their order. -/
def sort (kinds : List DiagnosticKind) : List DiagnosticKind :=
  kinds.mergeSort fun a b => a.rank ≤ b.rank

/-- Findings of graph assembly are warnings, the others errors. -/
def severity : DiagnosticKind → Severity
  | .unresolvedRule | .emptyDiagnosticPath => .warning
  | _ => .error

/-- What the reader can do about it. -/
def hint? : DiagnosticKind → Option Text
  | .malformedRule => some "a rule is written `name : alternative | ... ;`".toList
  | .unterminatedBlock => some "add the missing `\x7d`".toList
  | _ => none

/-- The message of a diagnostic without a detail. -/
def plainMessage : DiagnosticKind → Text
  | .unterminatedBlock => "unterminated `\x7b` block".toList
  | .unexpectedCharacter => "unexpected character".toList
  | .malformedRule => "rule has no `:`".toList
  | .unresolvedRule => "rule has no automaton".toList
  | .emptyDiagnosticPath => "diagnostic has no paths".toList

/-- The wording of a diagnostic with a detail. -/
def template : DiagnosticKind → Template
  | .malformedRule => ⟨"rule `".toList, "` has no `:`".toList⟩
  | .unresolvedRule => ⟨"rule `".toList, "` has no automaton start state".toList⟩
  | kind => ⟨kind.plainMessage ++ ": ".toList, []⟩

/-- The message for a detail, if there is one. -/
def message (kind : DiagnosticKind) : Option Text → Text
  | none => kind.plainMessage
  | some detail => kind.template.fill detail

end DiagnosticKind

/-- One finding. -/
structure Diagnostic where
  kind : DiagnosticKind
  /-- The place in the source; graph assembly has none. -/
  range : Option Span
  message : Text
  deriving DecidableEq, Repr

/-- Findings in the order in which they were reported. -/
abbrev Diagnostics := List Diagnostic

namespace Diagnostic

/-- A finding of a kind at a place, its message made from the detail. -/
def report (kind : DiagnosticKind) (range : Option Span) (detail : Option Text) : Diagnostic :=
  ⟨kind, range, kind.message detail⟩

/-- The severity of the kind. -/
def severity (d : Diagnostic) : Severity := d.kind.severity

/-- Whether the finding is an error. -/
def isError (d : Diagnostic) : Bool := d.severity = .error

/-- Whether the finding is a warning. -/
def isWarning (d : Diagnostic) : Bool := d.severity = .warning

/-- The finding on one line: severity, range, message and hint. -/
def line (d : Diagnostic) : Text :=
  let place := match d.range with
    | some r => " at ".toList ++ Text.decimal r.start ++ "..".toList ++ Text.decimal r.stop
    | none => []
  let hint := match d.kind.hint? with
    | some h => " (hint: ".toList ++ h ++ ")".toList
    | none => []
  d.severity.text ++ place ++ ": ".toList ++ d.message ++ hint

end Diagnostic

namespace Diagnostics

/-- Number of errors. -/
def errorCount (ds : Diagnostics) : Nat := ds.countP (·.isError)

/-- Number of warnings. -/
def warningCount (ds : Diagnostics) : Nat := ds.countP (·.isWarning)

/-- Whether there is an error. -/
def hasErrors (ds : Diagnostics) : Bool := ds.any (·.isError)

/-- Whether there is a warning. -/
def hasWarnings (ds : Diagnostics) : Bool := ds.any (·.isWarning)

/-- Whether there is a finding of the kind. -/
def hasKind (ds : Diagnostics) (kind : DiagnosticKind) : Bool := ds.any (·.kind = kind)

/-- The findings one below the other, each on its line. -/
def lines (ds : Diagnostics) : Text := Text.join ['\n'] (ds.map Diagnostic.line)

end Diagnostics
end GrammarAtlas
