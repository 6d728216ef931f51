import Viewflow.Flow.Hoist
import Viewflow.Flow.Merge
import Viewflow.Flow.Prune

namespace Viewflow.Flow

structure Tally where
  removed : Nat
  swapped : Nat
  merged : Nat
  rounds : Nat
deriving DecidableEq, Repr

namespace Tally

def zero : Tally := ⟨0, 0, 0, 0⟩

def changes (t : Tally) : Nat := t.removed + t.swapped + t.merged

def add (a b : Tally) : Tally :=
  ⟨a.removed + b.removed, a.swapped + b.swapped, a.merged + b.merged, a.rounds + b.rounds⟩

end Tally

namespace Forest

def round (f : Forest) (demand : Demand) : Except Fault (Forest × Tally) := do
  let (f, removed) ← f.removeUnused demand
  let (f, hoisted) ← f.moveParseUp
  let (f, merged) ← f.mergeSiblings
  return (f, ⟨removed, hoisted.swapped, hoisted.merged + merged, 1⟩)

def rounds (demand : Demand) : Nat → Forest → Tally → Except Fault (Forest × Tally)
  | 0, f, total => .ok (f, total)
  | bound + 1, f, total => do
    let (f, once) ← f.round demand
    let total := total.add once
    if once.changes = 0 then return (f, total)
    rounds demand bound f total

def defaultRounds : Nat := 32

-- At least one round, and no more than the bound. Nothing checks the links of the result, which agree
-- whenever the forest was well-formed before.
def optimize (f : Forest) (demand : Demand) (bound : Nat) : Except Fault (Forest × Tally) :=
  rounds demand (max bound 1) f Tally.zero

end Forest
end Viewflow.Flow
