import GrammarAtlas.Text.Basic

/-!
# Findings of a grammar analysis

An analyser of grammars reports ambiguities, unreachable alternatives and the
like.  A finding names the rules that are involved and carries paths through
their automata that show the problem.  A path can be switched off; the switches
are a list beside the paths, and a path without a switch is on.
-/

namespace GrammarAtlas

/-- The number of an automaton state. -/
abbrev StateId := Nat

/-- The name under which a state is drawn. -/
def StateId.text (id : StateId) : Text := 'S' :: Text.decimal id

/-- What an analysis has to say about some rules. -/
structure Finding where
  message : Text := []
  /-- The rules involved, in the order of the report. -/
  rules : List Text := []
  /-- Sequences of states that show the problem. -/
  paths : List (List StateId) := []
  /-- For each path, whether it is switched off. -/
  pathsDisabled : List Bool := []
  deriving DecidableEq, Repr

namespace Finding

/-- A finding with a message and nothing else. -/
def ofMessage (message : Text) : Finding := { message }

/-- The finding with one more rule. -/
def withRule (f : Finding) (rule : Text) : Finding := { f with rules := f.rules ++ [rule] }

/-- The finding with one more path and its switch. -/
def withPath (f : Finding) (states : List StateId) (disabled : Bool) : Finding :=
  { f with paths := f.paths ++ [states], pathsDisabled := f.pathsDisabled ++ [disabled] }

/-- Whether the path at an index is switched off. -/
def isPathDisabled (f : Finding) (i : Nat) : Bool := (f.pathsDisabled[i]?).getD false

end Finding
end GrammarAtlas
