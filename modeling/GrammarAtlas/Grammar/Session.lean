import GrammarAtlas.Grammar.Basic

/-!
# Editing sessions

A grammar lives through edits of its source.  Parsing again replaces it, and the
marks that the user has set on rules pass to the rules of the same name.
-/

namespace GrammarAtlas
namespace Grammar

/-- Changes the first rule with a name, if there is one. -/
def modifyRule? (g : Grammar) (name : Text) (f : Rule → Rule) : Option Grammar :=
  (indexOf? g.rules name).map fun i => { g with rules := g.rules.modify i f }

/-- Changes the rule at an index, if there is one. -/
def modifyAt? (g : Grammar) (i : Nat) (f : Rule → Rule) : Option Grammar :=
  if i < g.rules.length then some { g with rules := g.rules.modify i f } else none

/-- Unfolds or folds the rule with a name. -/
def setExpanded? (g : Grammar) (name : Text) (value : Bool) : Option Grammar :=
  g.modifyRule? name fun r => { r with expanded := value }

/-- Sets or clears the breakpoint on the rule with a name. -/
def setBreakpoint? (g : Grammar) (name : Text) (value : Bool) : Option Grammar :=
  g.modifyRule? name fun r => { r with breakpoint := value }

/-- Takes over the user's marks from the rules of the same names. -/
def restoreFlagsFrom (g previous : Grammar) : Grammar :=
  { g with rules := g.rules.map fun r =>
      match previous.rule? r.name with
      | some old => r.restoreFrom old
      | none => r }

/-- The grammar of a new source, with the user's marks of the previous one. -/
def reparse (source : Text) (previous : Grammar) : Grammar × Diagnostics :=
  let found := parse source
  (found.1.restoreFlagsFrom previous, found.2)

/-- Attaches to each rule the findings that name it, in place of earlier ones. -/
def attachFindings (g : Grammar) (findings : List Finding) : Grammar :=
  { g with rules := g.rules.map fun r =>
      { r with findings := findings.filter (r.name ∈ ·.rules) } }

end Grammar
end GrammarAtlas
