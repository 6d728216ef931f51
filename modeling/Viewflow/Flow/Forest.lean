import Viewflow.Flow.Step

namespace Viewflow.Flow

structure NodeId where
  index : Nat
deriving DecidableEq, Repr

namespace NodeId

instance : Inhabited NodeId := ⟨⟨0⟩⟩

def label (id : NodeId) : String := "N" ++ toString id.index

end NodeId

structure Node where
  name : String
  parent : Option NodeId
  children : List NodeId
  step : Step

instance : Inhabited Node := ⟨⟨"", none, [], .identifier⟩⟩

-- The nodes stay where they were added, so that their numbers never dangle; edges are held from both ends.
-- A node is attached when its chain of parents leads to a registered root.
structure Forest where
  nodes : Array Node
  roots : List NodeId

inductive Fault where
  | unknownNode (id : NodeId) (size : Nat)
  | cycle (node parent : NodeId)
  -- the parent does not list the node that names it
  | notChild (parent child : NodeId)
  -- the node has no parent to splice into or to change places with
  | noParent (request : String) (id : NodeId) (name : String)
  -- the parent is neither below another node nor a root
  | noPlace (parent : NodeId)
  | notOutput (request : String) (id : NodeId)
deriving DecidableEq, Repr

def Fault.message : Fault → String
  | .unknownNode id size =>
    "index out of bounds: the len is " ++ toString size ++ " but the index is " ++
      toString id.index
  | .cycle node parent =>
    "set_parent: " ++ node.label ++ " is an ancestor of " ++ parent.label ++
      " (edge would close a cycle)"
  | .notChild parent child =>
    "remove_child: " ++ child.label ++ " is not a child of " ++ parent.label
  | .noParent request id name =>
    request ++ ": " ++ id.label ++ " (" ++ name ++
      ") is a root (roots have no parent to splice into)"
  | .noPlace parent =>
    "swap_with_parent: " ++ parent.label ++ " has no parent and is not a registered root"
  | .notOutput request id => request ++ ": " ++ id.label ++ " is not an output node"

namespace Forest

def empty : Forest := ⟨#[], []⟩

def size (f : Forest) : Nat := f.nodes.size

def known (f : Forest) (id : NodeId) : Except Fault Unit :=
  if id.index < f.size then .ok () else .error (.unknownNode id f.size)

theorem known_eq_ok_iff (f : Forest) (id : NodeId) : f.known id = .ok () ↔ id.index < f.size := by
  unfold known
  split <;> simp_all

def node (f : Forest) (id : NodeId) : Node := f.nodes.getD id.index default

def parent? (f : Forest) (id : NodeId) : Option NodeId := (f.node id).parent

def children (f : Forest) (id : NodeId) : List NodeId := (f.node id).children

def step (f : Forest) (id : NodeId) : Step := (f.node id).step

def modify (f : Forest) (id : NodeId) (change : Node → Node) : Forest :=
  { f with nodes := f.nodes.modify id.index change }

theorem size_modify (f : Forest) (id : NodeId) (change : Node → Node) :
    (f.modify id change).size = f.size := by simp [modify, size]

theorem node_modify (f : Forest) (id other : NodeId) (change : Node → Node)
    (known : id.index < f.size) :
    (f.modify id change).node other = if other = id then change (f.node id) else f.node other := by
  obtain ⟨i⟩ := id
  obtain ⟨j⟩ := other
  simp only [size] at known
  simp only [modify, node, Array.getD_eq_getD_getElem?, Array.getElem?_modify, NodeId.mk.injEq]
  by_cases same : i = j
  · subst same
    simp [known]
  · simp [same, Ne.symm same]

def setStep (f : Forest) (id : NodeId) (step : Step) : Forest :=
  f.modify id fun n => { n with step }

def nextId (f : Forest) : NodeId := ⟨f.nodes.size⟩

def addNode (f : Forest) (name : String) (step : Step) : Forest × NodeId :=
  ({ f with nodes := f.nodes.push ⟨name, none, [], step⟩ }, f.nextId)

def addRoot (f : Forest) (name : String) (step : Step) : Forest × NodeId :=
  let (f, id) := f.addNode name step
  ({ f with roots := f.roots ++ [id] }, id)

def cloneNode (f : Forest) (id : NodeId) : Forest × NodeId :=
  f.addNode ("clone_" ++ (f.node id).name) (f.step id)

-- A node and its parents, upward. Without cycles no chain is longer than the forest is large.
def climb (f : Forest) : Nat → NodeId → List NodeId
  | 0, id => [id]
  | fuel + 1, id =>
    match f.parent? id with
    | none => [id]
    | some p => id :: f.climb fuel p

def lineage (f : Forest) (id : NodeId) : List NodeId := f.climb f.size id

def isAncestor (f : Forest) (ancestor id : NodeId) : Bool := (f.lineage id).contains ancestor

def top (f : Forest) (id : NodeId) : NodeId := (f.lineage id).getLastD id

def isAttached (f : Forest) (id : NodeId) : Bool := f.roots.contains (f.top id)

def boundary (f : Forest) (id : NodeId) : Except Fault Boundary :=
  match (f.step id).boundary? with
  | some b => .ok b
  | none => .error (.notOutput "output" id)

def setSource (f : Forest) (id : NodeId) (source : String) : Except Fault Forest :=
  match (f.step id).boundary? with
  | some b => .ok (f.setStep id (.output { b with source }))
  | none => .error (.notOutput "output_mut" id)

end Forest
end Viewflow.Flow
