import Viewflow.Flow.Edit
import Viewflow.Flow.Walk

namespace Viewflow.Flow.Forest

-- A leaf is of use when it is an output that somebody asked for. Roots are left to the end.
def isDeadLeaf (f : Forest) (demand : Demand) (id : NodeId) : Bool :=
  (f.parent? id).isSome &&
    match f.step id with
    | .output b => !demand.isRequired b.name
    | _ => true

def deadLeaves (f : Forest) (demand : Demand) : List NodeId :=
  f.leaves.filter (f.isDeadLeaf demand)

def removeAll (f : Forest) (ids : List NodeId) : Except Fault Forest :=
  ids.foldlM (fun f id => f.remove id) f

-- Every round but the last takes a node out of the forest, so that there are no more rounds than
-- nodes.
def pruneRounds (demand : Demand) : Nat → Forest → Nat → Except Fault (Forest × Nat)
  | 0, f, removed => .ok (f, removed)
  | fuel + 1, f, removed => do
    let dead := f.deadLeaves demand
    if dead.isEmpty then return (f, removed)
    let f ← f.removeAll dead
    pruneRounds demand fuel f (removed + dead.length)

def removeUnused (f : Forest) (demand : Demand) : Except Fault (Forest × Nat) := do
  let (f, removed) ← pruneRounds demand (f.size + 1) f 0
  let pruned := f.pruneEmptyRoots
  return (pruned, removed + (f.roots.length - pruned.roots.length))

end Viewflow.Flow.Forest
