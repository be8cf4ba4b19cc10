import GrammarAtlas.Graph.Basic

/-!
# Graphs as text

A graph is written one line per node, under a line with its name:

    graph expr
      S0 @0: ε → S2
      S2 @1: ID → S3
      S1 @3 accept: ∅

A line names the node, its rank unless ranks are left out, whether it accepts,
and the edges that leave it.
-/

namespace GrammarAtlas
namespace Graph

/-- An edge as it stands behind its source. -/
def edgeText (e : Edge) : Text := e.label.text ++ " → ".toList ++ StateId.text e.target

/-- The edges that leave a state. -/
def edgesFrom (g : Graph) (id : StateId) : List Edge := g.edges.filter (·.source = id)

/-- The edges of a node, or the sign for none. -/
def edgesText (es : List Edge) : Text :=
  if es.isEmpty then ['∅'] else Text.join ", ".toList (es.map edgeText)

/-- The line of a node, up to the colon. -/
def nodeHead (showRanks : Bool) (n : Node) : Text :=
  "  ".toList ++ n.label ++ (if showRanks then " @".toList ++ Text.decimal n.rank else []) ++
    (if n.accepting then " accept".toList else [])

/-- The line of a node. -/
def nodeLine (g : Graph) (showRanks : Bool) (n : Node) : Text :=
  nodeHead showRanks n ++ ": ".toList ++ edgesText (g.edgesFrom n.state) ++ ['\n']

/-- The graph as text. -/
def dump (g : Graph) (showRanks : Bool) : Text :=
  "graph ".toList ++ g.name ++ ['\n'] ++ g.nodes.flatMap (g.nodeLine showRanks)

end Graph
end GrammarAtlas
