import GrammarAtlas.Automaton.Basic

/-!
# Contracting epsilon states

A state with one transition, labelled epsilon, adds nothing to what an automaton
accepts: whoever leads to it may as well lead to its successor.  Contraction
takes the states of a list from the last to the first.  A state that is neither
the start nor accepting, and whose only transition is an epsilon transition to
another state, is bypassed: transitions into it are redirected to its successor,
and the state is dropped at the end.

Who leads to a state is not looked up in the states but kept beside them, as a
list of *arrivals*.  When a state is bypassed, its arrivals are taken from the
list, and those that come from a state that is still there are handed to its
successor.  A bypassed state is left as it was, so it may go on leading to
states that were bypassed after it.

An epsilon transition of a state to itself has nowhere to be redirected to and
stays.  So of every cycle of such states one is left.

The states carry their ids, so a list may name states that it does not contain.
Should an id occur more than once, its last occurrence is the state that
transitions of that id are redirected in.
-/

namespace GrammarAtlas

/-- A state together with its id. -/
structure RegionState where
  id : StateId
  accepting : Bool
  transitions : List Transition
  deriving DecidableEq, Repr

/-- What contraction did. -/
structure ContractionStats where
  /-- Number of states that were bypassed. -/
  eliminated : Nat := 0
  /-- Number of states left that have transitions, all of them epsilon. -/
  kept : Nat := 0
  deriving DecidableEq, Repr

/-- A transition seen from its target. -/
structure Arrival where
  target : StateId
  source : StateId
  deriving DecidableEq, Repr

namespace RegionState

/-- The state has transitions, and all consume nothing. -/
def isEpsilonOnly (s : RegionState) : Bool :=
  !s.transitions.isEmpty && s.transitions.all (·.label.isEpsilon)

/-- Where the only transition leads, if it consumes nothing. -/
def soleEpsilonTarget? (s : RegionState) : Option StateId :=
  match s.transitions with
  | [t] => if t.label.isEpsilon then some t.target else none
  | _ => none

/-- The state that may take the place of this one, seen from the start. -/
def bypass? (start : StateId) (s : RegionState) : Option StateId :=
  match s.soleEpsilonTarget? with
  | some successor =>
    if s.id = start ∨ s.accepting ∨ successor = s.id then none else some successor
  | none => none

/-- The state with its transitions into `old` leading to `new`. -/
def redirect (old new : StateId) (s : RegionState) : RegionState :=
  { s with transitions := s.transitions.map fun t =>
      if t.target = old then { t with target := new } else t }

/-- The arrivals that the state's transitions are. -/
def arrivals (s : RegionState) : List Arrival := s.transitions.map fun t => ⟨t.target, s.id⟩

end RegionState

namespace Contraction

/-- Redirects transitions in the last state with an id. -/
def redirectIn (id old new : StateId) : List RegionState → List RegionState
  | [] => []
  | s :: ss =>
    if s.id = id ∧ ss.all (·.id ≠ id) then s.redirect old new :: ss
    else s :: redirectIn id old new ss

/-- A contraction under way. -/
structure Sweep where
  states : List RegionState
  /-- The transitions between states that were not bypassed, seen from their
  targets, each at least once. -/
  arrivals : List Arrival
  /-- The ids of the states that were bypassed. -/
  bypassed : List StateId := []
  deriving DecidableEq, Repr

namespace Sweep

/-- A contraction that has done nothing yet. -/
def ofStates (states : List RegionState) : Sweep :=
  { states, arrivals := states.flatMap (·.arrivals) }

/-- Redirects the transitions of one state from `old` to `new`, unless the state
is bypassed or missing. -/
def hand (old new : StateId) (sweep : Sweep) (source : StateId) : Sweep :=
  if source ∈ sweep.bypassed ∨ sweep.states.all (·.id ≠ source) then sweep
  else
    { sweep with
      states := redirectIn source old new sweep.states
      arrivals := sweep.arrivals ++ [⟨new, source⟩] }

/-- The ids of the states that lead to a state, as far as the arrivals say. -/
def sources (sweep : Sweep) (id : StateId) : List StateId :=
  (sweep.arrivals.filter (·.target = id)).map (·.source)

/-- The contraction without the arrivals at a state. -/
def forget (sweep : Sweep) (id : StateId) : Sweep :=
  { sweep with arrivals := sweep.arrivals.filter (·.target ≠ id) }

/-- Bypasses the state with an id: all who lead to it lead to its successor. -/
def bypass (sweep : Sweep) (id successor : StateId) : Sweep :=
  let handed := (sweep.sources id).foldl (hand id successor) (sweep.forget id)
  { handed with bypassed := id :: handed.bypassed }

/-- Bypasses the state at a position if it can be bypassed. -/
def visit (start : StateId) (sweep : Sweep) (i : Nat) : Sweep :=
  match sweep.states[i]? with
  | none => sweep
  | some s =>
    match s.bypass? start with
    | none => sweep
    | some successor => sweep.bypass s.id successor

/-- Visits the first states, from the last of them to the first. -/
def run (start : StateId) : Nat → Sweep → Sweep
  | 0, sweep => sweep
  | i + 1, sweep => run start i (sweep.visit start i)

/-- The states that were not bypassed. -/
def left (sweep : Sweep) : List RegionState := sweep.states.filter (·.id ∉ sweep.bypassed)

end Sweep

/-- The states that are left, and what was done. -/
def contract (start : StateId) (states : List RegionState) :
    List RegionState × ContractionStats :=
  let sweep := Sweep.run start states.length (.ofStates states)
  (sweep.left, ⟨sweep.bypassed.length, sweep.left.countP (·.isEpsilonOnly)⟩)

end Contraction
end GrammarAtlas
