import Viewflow.Flow.Edit
import Viewflow.Flow.Walk

namespace Viewflow.Flow

def mergedCoercions (upper lower : Keyed String Coercion) : Keyed String Coercion :=
  lower.entries.foldl (fun fields entry => fields.putNew entry.1 entry.2) upper

namespace Forest

def mergeParse (f : Forest) (id into : NodeId) : Forest :=
  match f.step id, f.step into with
  | .parse lower, .parse upper => f.setStep into (.parse (mergedCoercions upper lower))
  | _, _ => f

-- What stands in the way of a coercion: a source, a fork, or a step that makes what it coerces.
def blocks (f : Forest) (parent id : NodeId) : Bool :=
  (f.step parent).isSource || 1 < (f.children parent).length ||
    !((f.step id).dependent.isDisjoint (f.step parent).produced)

structure HoistCount where
  swapped : Nat
  merged : Nat
deriving DecidableEq, Repr

-- Every change of places shortens the way up, which is never longer than the forest is large.
def hoist (id : NodeId) : Nat → Forest → HoistCount → Except Fault (Forest × HoistCount)
  | 0, f, n => .ok (f, n)
  | fuel + 1, f, n =>
    match f.parent? id with
    | none => .ok (f, n)
    | some parent =>
      if (f.step parent).isParse then do
        let f ← (f.mergeParse id parent).remove id
        return (f, { n with merged := n.merged + 1 })
      else if f.blocks parent id then .ok (f, n)
      else do
        let f ← f.swapWithParent id
        hoist id fuel f { n with swapped := n.swapped + 1 }

def parses (f : Forest) : List NodeId := f.walkAll.filter fun id => (f.step id).isParse

def hoistNext (state : Forest × HoistCount) (id : NodeId) : Except Fault (Forest × HoistCount) :=
  if state.1.isAttached id then hoist id state.1.size state.1 state.2 else .ok state

def moveParseUp (f : Forest) : Except Fault (Forest × HoistCount) :=
  f.parses.foldlM hoistNext (f, ⟨0, 0⟩)

end Forest
end Viewflow.Flow
