import GrammarAtlas.Graph.Dump
import GrammarAtlas.Group.Basic
import GrammarAtlas.Text.Quoted

/-!
# Groups as text

A group is written as a line with its name between quotes, the texts of its
graphs, and a line for each trace with its index, its marks and its states.
-/

namespace GrammarAtlas
namespace GraphGroup

/-- The line of a trace. -/
def traceLine (i : Nat) (t : Trace) : Text :=
  "path ".toList ++ Text.decimal i ++ (if t.visible then " visible".toList else []) ++
    (if t.enabled then [] else " disabled".toList) ++ [':'] ++
    t.states.flatMap (fun id => ' ' :: StateId.text id) ++ ['\n']

/-- The group as text. -/
def dump (g : GraphGroup) (showRanks : Bool) : Text :=
  "group ".toList ++ Quoted.render g.name ++ ['\n'] ++ g.graphs.flatMap (·.dump showRanks) ++
    g.traces.zipIdx.flatMap fun (t, i) => traceLine i t

end GraphGroup
end GrammarAtlas
