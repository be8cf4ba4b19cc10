import GrammarAtlas.Automaton.Region

/-!
# Graphs

What is drawn of a rule's automaton: a node for each state and an edge for each
transition, both in the order of the region.  A node's rank is its distance from
the start state and decides how far to the right it stands.
-/

namespace GrammarAtlas

/-- A state as it is drawn. -/
structure Node where
  state : StateId
  label : Text
  accepting : Bool
  rank : Nat
  deriving DecidableEq, Repr

/-- A transition as it is drawn. -/
structure Edge where
  source : StateId
  target : StateId
  label : Label
  deriving DecidableEq, Repr

/-- A drawing of one rule's automaton, under the name of the rule. -/
structure Graph where
  name : Text
  nodes : List Node
  edges : List Edge
  deriving DecidableEq, Repr

namespace Graph

/-- The first node of a state. -/
def node? (g : Graph) (id : StateId) : Option Node := g.nodes.find? (·.state = id)

/-- Whether a state is drawn. -/
def containsState (g : Graph) (id : StateId) : Bool := (g.node? id).isSome

/-- Whether any of some states is drawn. -/
def containsAny (g : Graph) (ids : List StateId) : Bool := ids.any g.containsState

end Graph

namespace Region

/-- The ids within reach of the start, with their distances. -/
def ranks (g : Region) : List (StateId × Nat) :=
  BreadthFirst.order g.successors (g.transitionCount + 1) g.start

/-- The distance of a state from the start. -/
def rank (g : Region) (id : StateId) : Nat := (g.ranks.lookup id).getD 0

/-- The nodes of the drawing. -/
def nodes (g : Region) : List Node :=
  let ranks := g.ranks
  g.states.map fun s => ⟨s.id, StateId.text s.id, s.accepting, (ranks.lookup s.id).getD 0⟩

/-- The edges of the drawing. -/
def edges (g : Region) : List Edge :=
  g.states.flatMap fun s => s.transitions.map fun t => ⟨s.id, t.target, t.label⟩

/-- The drawing of a region. -/
def draw (g : Region) (name : Text) : Graph := ⟨name, g.nodes, g.edges⟩

end Region
end GrammarAtlas
