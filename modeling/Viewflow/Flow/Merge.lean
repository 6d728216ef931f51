import Viewflow.Flow.Edit
import Viewflow.Flow.Walk

namespace Viewflow.Flow.Forest

def twinOf? (f : Forest) (id : NodeId) (later : List NodeId) : Option NodeId :=
  if (f.step id).isOutput then none
  else later.find? fun other => (f.step id).same (f.step other)

def firstTwins? (f : Forest) : List NodeId → Option (NodeId × NodeId)
  | [] => none
  | id :: later =>
    match f.twinOf? id later with
    | some twin => some (id, twin)
    | none => f.firstTwins? later

def absorb (f : Forest) (kept twin : NodeId) : Except Fault Forest := do
  let f ← f.moveAll (f.children twin) kept
  f.remove twin

-- Every merge leaves one child fewer.
def mergeChildren (parent : NodeId) : Nat → Forest → Nat → Except Fault (Forest × Nat)
  | 0, f, merged => .ok (f, merged)
  | fuel + 1, f, merged =>
    match f.firstTwins? (f.children parent) with
    | none => .ok (f, merged)
    | some (kept, twin) => do
      let f ← f.absorb kept twin
      mergeChildren parent fuel f (merged + 1)

def mergeNext (state : Forest × Nat) (id : NodeId) : Except Fault (Forest × Nat) :=
  if state.1.isAttached id then mergeChildren id (state.1.children id).length state.1 state.2
  else .ok state

def mergeSiblings (f : Forest) : Except Fault (Forest × Nat) := f.walkAll.foldlM mergeNext (f, 0)

end Viewflow.Flow.Forest
