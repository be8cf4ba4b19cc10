import GrammarAtlas.Finding.Basic

/-!
# Automata of rules

All states of all rules live in one list, and a state is known by its position
in it.  A rule has a start state and a stop state, and the stop state is the one
that accepts.  A transition that calls another rule leads to the state behind the
call: the states of the called rule are never entered from the caller, so what
can be reached from a rule's start stays within the rule.

States are only ever added, and transitions only ever appended.  Drawing a
transition out of a state that does not exist fails with `MissingState`; where it
leads is not checked.
-/

namespace GrammarAtlas

/-- What a transition consumes. -/
inductive Label where
  /-- Nothing. -/
  | epsilon
  /-- A terminal as it is written. -/
  | symbol (text : Text)
  /-- All that a rule stands for. -/
  | rule (name : Text)
  deriving DecidableEq, Repr

namespace Label

/-- How a label is drawn. -/
def text : Label → Text
  | .epsilon => ['ε']
  | .symbol t => t
  | .rule name => '<' :: name ++ ['>']

/-- Whether the label consumes nothing. -/
def isEpsilon : Label → Bool
  | .epsilon => true
  | _ => false

end Label

/-- A labelled step to a state. -/
structure Transition where
  label : Label
  target : StateId
  deriving DecidableEq, Repr

/-- A state of an automaton. -/
structure State where
  transitions : List Transition := []
  accepting : Bool := false
  deriving DecidableEq, Repr

/-- The first and the last state of a rule. -/
structure RuleEnds where
  start : StateId
  stop : StateId
  deriving DecidableEq, Repr

/-- The states of some rules, and the rules in order of their first definition. -/
structure Automaton where
  states : List State := []
  rules : List (Text × RuleEnds) := []
  deriving DecidableEq, Repr

/-- A transition was to leave a state that does not exist. -/
structure MissingState where
  id : StateId
  deriving DecidableEq, Repr

namespace Automaton

/-- Number of states. -/
def size (a : Automaton) : Nat := a.states.length

/-- The state with an id. -/
def get? (a : Automaton) (id : StateId) : Option State := a.states[id]?

/-- The state with an id, which has to exist. -/
def state (a : Automaton) (id : StateId) : Except MissingState State :=
  match a.get? id with
  | some s => .ok s
  | none => .error ⟨id⟩

/-- The start and stop state of a rule. -/
def rule? (a : Automaton) (name : Text) : Option RuleEnds := a.rules.lookup name

/-- The start state of a rule. -/
def startState? (a : Automaton) (name : Text) : Option StateId := (a.rule? name).map (·.start)

/-- The automaton with one more state, whose id is the former size. -/
def push (a : Automaton) : Automaton := { a with states := a.states ++ [{}] }

/-- The automaton with one more transition, behind those that the state has. -/
def link (a : Automaton) (source : StateId) (t : Transition) : Automaton :=
  { a with states :=
      a.states.modify source fun s => { s with transitions := s.transitions ++ [t] } }

/-- The automaton with a state accepting. -/
def accept (a : Automaton) (id : StateId) : Automaton :=
  { a with states := a.states.modify id fun s => { s with accepting := true } }

/-- Some rules with the ends of one of them replaced, or with that rule behind
them if its name is new. -/
def setRule (name : Text) (ends : RuleEnds) : List (Text × RuleEnds) → List (Text × RuleEnds)
  | [] => [(name, ends)]
  | r :: rs => if r.1 = name then (name, ends) :: rs else r :: setRule name ends rs

/-- The automaton with a rule defined anew. -/
def define (a : Automaton) (name : Text) (ends : RuleEnds) : Automaton :=
  { a with rules := setRule name ends a.rules }

end Automaton
end GrammarAtlas
