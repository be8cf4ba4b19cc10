import GrammarAtlas.Diagnostic.Snippet

/-!
# Reports

Diagnostics are reported one below the other.  With a source at hand, a
diagnostic that has a place is shown as a snippet; all others take one line.
-/

namespace GrammarAtlas

/-- How diagnostics are reported. -/
structure ReportOptions where
  source : Option Text := none
  path : Option Text := none
  colored : Bool := false
  deriving DecidableEq, Repr

namespace ReportOptions

/-- One diagnostic. -/
def single (o : ReportOptions) (d : Diagnostic) : Except ReadFault Text :=
  match o.source, d.range with
  | some source, some range =>
    return Row.renderAll o.colored (← Snippet.rows source o.path d.severity d.message range)
  | _, _ => .ok d.line

/-- All diagnostics. -/
def report (o : ReportOptions) (ds : Diagnostics) : Except ReadFault Text :=
  return Text.join ['\n'] (← ds.mapM o.single)

end ReportOptions
end GrammarAtlas
