import GrammarAtlas.Finding.Basic

/-!
# Breadth-first order

A walk over ids that are joined by a successor function.  An id is listed when it
is first found, with its distance from the start, and the ids still to be looked
at are the ones listed behind those that were.  So the list of what has been
found is `done ++ queue` at every moment, and no other record of it is needed.

The walk is given a bound on the number of ids to look at.  A bound that is at
least the number of ids within reach changes nothing.
-/

namespace GrammarAtlas
namespace BreadthFirst

/-- The ids in a list that were not seen before, each once, in order. -/
def fresh (seen : List StateId) : List StateId → List StateId
  | [] => []
  | id :: ids => if id ∈ seen then fresh seen ids else id :: fresh (id :: seen) ids

/-- The ids found from those in the queue, behind those that are done, each with
its distance. -/
def walk (successors : StateId → List StateId) :
    Nat → List (StateId × Nat) → List (StateId × Nat) → List (StateId × Nat)
  | 0, done, queue => done ++ queue
  | _ + 1, done, [] => done
  | bound + 1, done, (id, distance) :: queue =>
    let seen := (done ++ (id, distance) :: queue).map (·.1)
    let found := (fresh seen (successors id)).map fun next => (next, distance + 1)
    walk successors bound (done ++ [(id, distance)]) (queue ++ found)

/-- The ids within reach of a start, each with its distance. -/
def order (successors : StateId → List StateId) (bound : Nat) (start : StateId) :
    List (StateId × Nat) :=
  walk successors bound [] [(start, 0)]

end BreadthFirst
end GrammarAtlas
