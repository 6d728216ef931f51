import Viewflow.Flow.Forest

namespace Viewflow.Flow

inductive Tree where
  | node (id : NodeId) (step : Step) (children : List Tree)

namespace Tree

def id : Tree → NodeId
  | .node id .. => id

def step : Tree → Step
  | .node _ step _ => step

def children : Tree → List Tree
  | .node _ _ children => children

end Tree

namespace Forest

-- The nodes still to be visited stand on a stack. Without cycles no more are taken from it than
-- the forest has.
def walkFrom (f : Forest) : Nat → List NodeId → List NodeId
  | 0, _ => []
  | _ + 1, [] => []
  | fuel + 1, id :: stack => id :: f.walkFrom fuel (f.children id ++ stack)

def walk (f : Forest) (start : NodeId) : List NodeId := f.walkFrom f.size [start]

def walkAll (f : Forest) : List NodeId := f.roots.flatMap f.walk

def leaves (f : Forest) : List NodeId := f.walkAll.filter fun id => (f.children id).isEmpty

def linksAgree (f : Forest) : Bool :=
  (List.range f.size).all fun i =>
    let id : NodeId := ⟨i⟩
    (f.children id).all (fun c => f.parent? c == some id) &&
      match f.parent? id with
      | some p => (f.children p).count id == 1 && !f.roots.contains id
      | none => true

def treeFrom (f : Forest) : Nat → NodeId → Tree
  | 0, id => .node id (f.step id) []
  | fuel + 1, id => .node id (f.step id) ((f.children id).map (f.treeFrom fuel))

def tree (f : Forest) (id : NodeId) : Tree := f.treeFrom f.size id

def trees (f : Forest) : List Tree := f.roots.map f.tree

end Forest
end Viewflow.Flow
