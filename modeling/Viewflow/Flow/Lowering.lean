import Viewflow.Flow.Pipeline

namespace Viewflow.Flow

-- Views are laid into the forest as chains of nodes. Views that read the same data share its root.
structure Lowering where
  forest : Forest
  demand : Demand
  sources : Keyed String NodeId

structure Outputs where
  raw : NodeId
  main : NodeId
deriving DecidableEq, Repr

namespace Lowering

def empty : Lowering := ⟨.empty, .empty, .empty⟩

def source (l : Lowering) (data : DataRef) : Lowering × NodeId :=
  match l.sources.find? data.key with
  | some id => (l, id)
  | none =>
    let (forest, id) := l.forest.addRoot "source" (.source data)
    ({ l with forest, sources := l.sources.put data.key id }, id)

def extend (l : Lowering) (head : NodeId) (step : NamedStep) : Lowering × NodeId :=
  let (forest, id) := l.forest.addUnder head step.1 step.2
  ({ l with forest }, id)

def extendAll (l : Lowering) (head : NodeId) (steps : List NamedStep) : Lowering × NodeId :=
  steps.foldl (fun (l, head) step => l.extend head step) (l, head)

def output (l : Lowering) (head : NodeId) (node name : String) (kind : OutputKind) :
    Lowering × NodeId :=
  let l := { l with demand := l.demand.register name }
  l.extend head (node, .output (.fresh name kind))

def lay (l : Lowering) (v : UnitView) (p : Pipeline) : Lowering × Outputs :=
  let (l, head) := l.source v.data
  let (l, head) := l.extendAll head p.early
  let (l, raw) := l.output head "raw" (v.unitName ++ "_raw") .raw
  let (l, head) := l.extendAll raw p.late
  let (l, main) := l.output head "main" (v.unitName ++ "_main") .main
  (l, ⟨raw, main⟩)

def addView (registry : Registry) (index : Index) (l : Lowering) (v : UnitView) :
    Except Failure (Lowering × Outputs) := do
  let p ← Pipeline.ofView registry index v
  return l.lay v p

def addViews (registry : Registry) (index : Index) (l : Lowering) :
    List UnitView → Except Failure (Lowering × List Outputs)
  | [] => .ok (l, [])
  | v :: rest => do
    let (l, outputs) ← l.addView registry index v
    let (l, others) ← l.addViews registry index rest
    return (l, outputs :: others)

def request (l : Lowering) (id : NodeId) : Except Failure Lowering := do
  let b ← Failure.ofFlow (l.forest.boundary id)
  return { l with demand := l.demand.request b.name }

def requestMain (l : Lowering) (outputs : List Outputs) : Except Failure Lowering :=
  outputs.foldlM (fun l o => l.request o.main) l

end Lowering
end Viewflow.Flow
