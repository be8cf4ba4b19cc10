import GrammarAtlas.Graph.Basic

/-!
# Groups of graphs

The graphs of the rules in one finding are shown together with the finding's
paths.  Each path can be enabled and can be visible.  At most one is meant to be
visible at a time: `selectNext` and `selectPrevious` step through the enabled
paths in a circle and hide all others.
-/

namespace GrammarAtlas

/-- A trace through the automata. -/
structure Trace where
  states : List StateId
  enabled : Bool
  visible : Bool := false
  deriving DecidableEq, Repr

/-- The pairs of neighbouring states, which are the edges that the trace walks. -/
def Trace.steps (t : Trace) : List (StateId × StateId) := t.states.zip t.states.tail

/-- Graphs and the traces shown in them. -/
structure GraphGroup where
  name : Text := []
  graphs : List Graph := []
  traces : List Trace := []
  deriving DecidableEq, Repr

namespace GraphGroup

/-- The group with one more graph. -/
def addGraph (g : GraphGroup) (graph : Graph) : GraphGroup :=
  { g with graphs := g.graphs ++ [graph] }

/-- The group with one more trace, which is hidden. -/
def addTrace (g : GraphGroup) (states : List StateId) (disabled : Bool) : GraphGroup :=
  { g with traces := g.traces ++ [{ states, enabled := !disabled }] }

/-- The first graph under a name. -/
def graph? (g : GraphGroup) (name : Text) : Option Graph := g.graphs.find? (·.name = name)

/-- The indices of the visible traces. -/
def visibleIndices (g : GraphGroup) : List Nat :=
  (g.traces.zipIdx.filter (·.1.visible)).map (·.2)

/-- Number of visible traces. -/
def visibleCount (g : GraphGroup) : Nat := g.traces.countP (·.visible)

/-- The group with a trace shown or hidden, if there is such a trace. -/
def setVisible? (g : GraphGroup) (i : Nat) (value : Bool) : Option GraphGroup :=
  if i < g.traces.length then
    some { g with traces := g.traces.modify i fun t => { t with visible := value } }
  else none

/-- The group with a trace enabled or disabled the other way, and the new value,
if there is such a trace. -/
def toggleEnabled? (g : GraphGroup) (i : Nat) : Option (GraphGroup × Bool) :=
  (g.traces[i]?).map fun t =>
    ({ g with traces := g.traces.modify i fun t => { t with enabled := !t.enabled } }, !t.enabled)

/-- The group with every trace shown. -/
def showAll (g : GraphGroup) : GraphGroup :=
  { g with traces := g.traces.map fun t => { t with visible := true } }

/-- The group with every trace hidden. -/
def hideAll (g : GraphGroup) : GraphGroup :=
  { g with traces := g.traces.map fun t => { t with visible := false } }

/-- The group with one trace shown and the others hidden. -/
def showOnly (g : GraphGroup) (i : Nat) : GraphGroup :=
  { g with traces := g.traces.mapIdx fun j t => { t with visible := j == i } }

/-- Index of the first visible trace. -/
def firstVisible? (g : GraphGroup) : Option Nat := g.traces.findIdx? (·.visible)

/-- Whether the trace at an index is enabled. -/
def isEnabled (g : GraphGroup) (i : Nat) : Bool := ((g.traces[i]?).map (·.enabled)).getD false

/-- The indices below `n` in a circle, from behind `i` back to `i`. -/
def forward (n i : Nat) : List Nat := (List.range n).map fun k => (i + (k + 1)) % n

/-- The indices below `n` in a circle, from before `i` back to `i`. -/
def backward (n i : Nat) : List Nat := (List.range n).map fun k => (i + n - (k + 1)) % n

/-- Shows the first enabled trace of some indices alone.  Nothing changes if
there is none. -/
def selectFirst (g : GraphGroup) (candidates : List Nat) : GraphGroup × Option Nat :=
  match candidates.find? g.isEnabled with
  | some i => (g.showOnly i, some i)
  | none => (g, none)

/-- Shows the enabled trace that follows the first visible one, or else the first
enabled one, and tells its index. -/
def selectNext (g : GraphGroup) : GraphGroup × Option Nat :=
  let n := g.traces.length
  g.selectFirst (forward n (g.firstVisible?.getD (n - 1)))

/-- Shows the enabled trace that precedes the first visible one, or else the last
enabled one, and tells its index. -/
def selectPrevious (g : GraphGroup) : GraphGroup × Option Nat :=
  g.selectFirst (backward g.traces.length (g.firstVisible?.getD 0))

end GraphGroup
end GrammarAtlas
