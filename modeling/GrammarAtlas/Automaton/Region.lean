import GrammarAtlas.Automaton.BreadthFirst
import GrammarAtlas.Automaton.Contraction

/-!
# The region of a state

The region of a state is what can be reached from it, in breadth-first order.
Transitions may lead to states that do not exist; those are no part of the
region, and the transitions stay as they are.  A region can be contracted on
the way.
-/

namespace GrammarAtlas

/-- The states within reach of a start state. -/
structure Region where
  start : StateId
  states : List RegionState
  stats : ContractionStats
  deriving DecidableEq, Repr

namespace Region

/-- The first state with an id. -/
def state? (g : Region) (id : StateId) : Option RegionState := g.states.find? (·.id = id)

/-- Whether there is a state with an id. -/
def contains (g : Region) (id : StateId) : Bool := g.states.any (·.id = id)

/-- The ids of the states in order. -/
def ids (g : Region) : List StateId := g.states.map (·.id)

/-- Number of states. -/
def size (g : Region) : Nat := g.states.length

/-- Number of transitions. -/
def transitionCount (g : Region) : Nat := (g.states.flatMap (·.transitions)).length

/-- The states that a state of the region leads to. -/
def successors (g : Region) (id : StateId) : List StateId :=
  ((g.state? id).map fun s => s.transitions.map (·.target)).getD []

end Region

namespace Automaton

/-- The states that a state leads to. -/
def successors (a : Automaton) (id : StateId) : List StateId :=
  ((a.get? id).map fun s => s.transitions.map (·.target)).getD []

/-- Number of transitions. -/
def transitionCount (a : Automaton) : Nat := (a.states.flatMap (·.transitions)).length

/-- The state with an id, together with the id. -/
def regionState? (a : Automaton) (id : StateId) : Option RegionState :=
  (a.get? id).map fun s => ⟨id, s.accepting, s.transitions⟩

/-- The existing states within reach of a start state, in breadth-first order.
Every id that is found, the start apart, is the target of a transition, which
bounds their number. -/
def reachable (a : Automaton) (start : StateId) : List RegionState :=
  if start < a.size then
    (BreadthFirst.order a.successors (a.transitionCount + 1) start).filterMap
      fun found => a.regionState? found.1
  else []

/-- The region of a start state; empty if the state does not exist. -/
def region (a : Automaton) (start : StateId) (optimize : Bool) : Region :=
  if optimize then
    let (states, stats) := Contraction.contract start (a.reachable start)
    ⟨start, states, stats⟩
  else ⟨start, a.reachable start, {}⟩

end Automaton
end GrammarAtlas
