import GrammarAtlas.Diagnostic.Basic
import GrammarAtlas.Group.Basic

/-!
# Assembling graphs and groups

From an automaton and the name of a rule comes the rule's graph, from an
automaton and a finding the group of graphs that its paths run through.  A name
without an automaton is reported and left out, and so is the missing of paths;
reports are put behind those made before.
-/

namespace GrammarAtlas

/-- How graphs are made. -/
structure AssemblyConfig where
  /-- Contract epsilon states. -/
  optimize : Bool := true
  deriving DecidableEq, Repr

/-- What is shown of a rule. -/
inductive Visualization where
  /-- Its own graph. -/
  | graphs (graphs : List Graph)
  /-- A group for each finding. -/
  | groups (groups : List GraphGroup)
  deriving DecidableEq, Repr

namespace AssemblyConfig

/-- The other way of making graphs. -/
def toggle (c : AssemblyConfig) : AssemblyConfig := { c with optimize := !c.optimize }

variable (c : AssemblyConfig) (a : Automaton)

/-- The graph of a rule, or a report that it has no automaton. -/
def graph? (name : Text) (reports : Diagnostics) : Option Graph × Diagnostics :=
  match a.startState? name with
  | none => (none, reports ++ [.report .unresolvedRule none (some name)])
  | some start => (some ((a.region start c.optimize).draw name), reports)

/-- Adds the graph of a rule to a group if one of some paths touches it. -/
def addRule (paths : List (List StateId)) (made : GraphGroup × Diagnostics) (name : Text) :
    GraphGroup × Diagnostics :=
  match c.graph? a name made.2 with
  | (none, reports) => (made.1, reports)
  | (some graph, reports) =>
    (if paths.any graph.containsAny then made.1.addGraph graph else made.1, reports)

/-- The group of a finding.  Its first path is visible. -/
def group (f : Finding) (reports : Diagnostics) : GraphGroup × Diagnostics :=
  let made := f.rules.foldl (c.addRule a f.paths) ({ name := f.message }, reports)
  let traced := f.paths.zipIdx.foldl
    (fun (g : GraphGroup) (path, i) => g.addTrace path (f.isPathDisabled i)) made.1
  match traced.setVisible? 0 true with
  | some shown => (shown, made.2)
  | none => (traced, made.2 ++ [.report .emptyDiagnosticPath none (some f.message)])

/-- The groups of some findings, in order. -/
def groups : List Finding → Diagnostics → List GraphGroup × Diagnostics
  | [], reports => ([], reports)
  | f :: fs, reports =>
    let first := c.group a f reports
    let rest := groups fs first.2
    (first.1 :: rest.1, rest.2)

/-- What is shown of a rule: its graph if there are no findings, else a group for
each finding. -/
def visualize? (name : Text) (findings : List Finding) (reports : Diagnostics) :
    Option Visualization × Diagnostics :=
  if findings.isEmpty then
    let made := c.graph? a name reports
    (made.1.map fun graph => .graphs [graph], made.2)
  else
    let made := c.groups a findings reports
    (some (.groups made.1), made.2)

end AssemblyConfig
end GrammarAtlas
