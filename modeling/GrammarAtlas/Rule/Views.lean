import GrammarAtlas.Rule.Basic

/-!
# How an editor sees a rule

Code folding and the breakpoint gutter each need a few fields of a rule.  A fold
covers the rule from its colon to its semicolon, so that the name stays visible;
it can collapse only when the two stand on different lines.
-/

namespace GrammarAtlas

/-- What code folding needs to know about a rule. -/
structure Folding where
  id : Nat
  expanded : Bool
  collapsible : Bool
  /-- Start of the rule that the fold belongs to. -/
  paragraphOffset : Nat
  startOffset : Nat
  stopOffset : Nat
  startLine : Nat
  stopLine : Nat
  level : Nat
  placeholder : Text
  deriving DecidableEq, Repr

/-- What the breakpoint gutter needs to know about a rule. -/
structure BreakpointSite where
  id : Nat
  offset : Nat
  line : Nat
  enabled : Bool
  deriving DecidableEq, Repr

namespace Rule

/-- What stands for a collapsed rule. -/
def foldingPlaceholder : Text := ": ... ;".toList

/-- Whether the colon's line comes before the semicolon's. -/
def isCollapsible (r : Rule) (s : TokenStream) : Bool :=
  match s.get? r.span.colon, s.get? r.span.stop with
  | some colon, some stop => colon.startLine < stop.startLine
  | _, _ => false

/-- The rule for code folding. -/
def folding (r : Rule) (s : TokenStream) : Folding where
  id := r.persistentId
  expanded := r.expanded
  collapsible := r.isCollapsible s
  paragraphOffset := r.startOffset s
  startOffset := ((s.get? r.span.colon).map (·.span.start)).getD 0
  stopOffset := r.stopOffset s
  startLine := ((s.get? r.span.colon).map (·.startLine)).getD 0
  stopLine := ((s.get? r.span.stop).map (·.stopLine)).getD 0
  level := 0
  placeholder := foldingPlaceholder

/-- The rule for the breakpoint gutter. -/
def breakpointSite (r : Rule) (s : TokenStream) : BreakpointSite where
  id := r.persistentId
  offset := r.startOffset s
  line := ((s.get? r.span.start).map (·.startLine)).getD 0
  enabled := r.breakpoint

end Rule
end GrammarAtlas
