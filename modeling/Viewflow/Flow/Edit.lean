import Viewflow.Flow.Forest

namespace Viewflow.Flow.Forest

def putParent (f : Forest) (id : NodeId) (parent : Option NodeId) : Forest :=
  f.modify id fun n => { n with parent }

def putChildren (f : Forest) (id : NodeId) (change : List NodeId → List NodeId) : Forest :=
  f.modify id fun n => { n with children := change n.children }

-- Takes a node out of its place, under its parent or among the roots, and leaves it on its own
-- with what is below it.
def detach (f : Forest) (id : NodeId) : Except Fault Forest :=
  match f.parent? id with
  | some old =>
    if id ∈ f.children old then .ok ((f.putChildren old (·.erase id)).putParent id none)
    else .error (.notChild old id)
  | none => .ok { f with roots := f.roots.filter (· != id) }

def adopt (f : Forest) (id parent : NodeId) : Forest :=
  (f.putParent id (some parent)).putChildren parent (· ++ [id])

-- The only request that adds an edge between nodes with something above or below them, so that none
-- can close a cycle.
def setParent (f : Forest) (id parent : NodeId) : Except Fault Forest :=
  if f.isAncestor id parent then .error (.cycle id parent)
  else do return (← f.detach id).adopt id parent

def addUnder (f : Forest) (parent : NodeId) (name : String) (step : Step) : Forest × NodeId :=
  let (f, id) := f.addNode name step
  (f.adopt id parent, id)

def parentOr (f : Forest) (request : String) (id : NodeId) : Except Fault NodeId :=
  match f.parent? id with
  | some p => .ok p
  | none => .error (.noParent request id (f.node id).name)

def moveAll (f : Forest) (ids : List NodeId) (parent : NodeId) : Except Fault Forest :=
  ids.foldlM (fun f id => f.setParent id parent) f

def unhook (f : Forest) (id parent : NodeId) : Except Fault Forest := do
  let f ← f.moveAll (f.children id) parent
  f.detach id

def remove (f : Forest) (id : NodeId) : Except Fault Forest := do
  let parent ← f.parentOr "remove" id
  f.unhook id parent

def takePlace (f : Forest) (id other : NodeId) : Except Fault Forest :=
  match f.parent? other with
  | some above =>
    if other ∈ f.children above then
      .ok (((f.putChildren above (·.replace other id)).putParent id (some above)).putParent other
        none)
    else .error (.notChild above other)
  | none =>
    if other ∈ f.roots then .ok { f with roots := f.roots.replace other id }
    else .error (.noPlace other)

-- A node and its parent change places: the children go to the old parent, which becomes the only
-- child.
def swapWithParent (f : Forest) (id : NodeId) : Except Fault Forest := do
  let parent ← f.parentOr "swap_with_parent" id
  let f ← f.unhook id parent
  let f ← f.takePlace id parent
  return f.adopt parent id

def pruneEmptyRoots (f : Forest) : Forest :=
  { f with roots := f.roots.filter fun r => !(f.children r).isEmpty }

end Viewflow.Flow.Forest
