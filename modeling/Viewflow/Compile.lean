import Viewflow.Config
import Viewflow.Flow.Emit
import Viewflow.Flow.Lowering
import Viewflow.Selection.Assembly
import Viewflow.Selection.Brush
import Viewflow.Selection.Completion

namespace Viewflow
open Viewflow.Flow (Demand Forest Lowering Outputs)
open Output (Dataset Mark Signal)

structure Compiled where
  data : List Dataset
  signals : List Signal
  marks : List Mark
  predicates : Keyed String String
  -- the signal that a scale's domain follows, by scale name
  scaleDomains : Keyed String String

namespace Spec

def isComposed (spec : Spec) : Bool := 1 < spec.views.length

def contexts (spec : Spec) : List UnitContext :=
  spec.views.map fun view => ⟨view, spec.isComposed⟩

end Spec

structure Compilation.Unit where
  context : UnitContext
  selections : Selections

namespace Compilation

def units (spec : Spec) (registry : Registry) (config : SelectionConfig) :
    Except Failure (List Unit) :=
  spec.contexts.mapM fun context => do
    return ⟨context, ← Selections.ofView context registry config⟩

def indexOf (units : List Unit) : Index :=
  units.foldl (fun index u => index.insertAll u.context.unitName u.selections) .empty

def optimized (config : Config) (l : Lowering) : Except Failure Forest := do
  if config.optimize then
    let (forest, _) ← Failure.ofFlow (l.forest.optimize l.demand config.maxRounds)
    return forest
  return l.forest

def arranged (config : Config) (registry : Registry) (index : Index) (spec : Spec) :
    Except Failure (Forest × Demand × List Outputs) := do
  let (lowering, outputs) ← Lowering.empty.addViews registry index spec.views
  let lowering ← lowering.requestMain outputs
  let forest ← optimized config lowering
  return (forest, lowering.demand, outputs)

structure Scene where
  data : List Dataset
  topSignals : List Signal
  unitSignals : List Signal
  marks : List Mark

-- One view alone puts its signals and marks at the top; of several, each has a group.
def addUnit (registry : Registry) (forest : Forest) (scene : Scene) (u : Unit)
    (outputs : Outputs) : Except Failure Scene := do
  let ctx := u.context
  let main ← Failure.ofFlow (forest.boundary outputs.main)
  let primary := Mark.drawn (ctx.nameOf "marks") ctx.view.mark main.source
  let marks ← u.selections.marks ctx registry [primary]
  let signals ← u.selections.signals ctx registry []
  let topSignals ← u.selections.topLevelSignals ctx registry scene.topSignals
  let data := u.selections.stores scene.data
  if ctx.composed then
    let group := Mark.group (ctx.nameOf "group") signals marks
    return { scene with data, topSignals, marks := scene.marks ++ [group] }
  return {
    data, topSignals, unitSignals := scene.unitSignals ++ signals, marks := scene.marks ++ marks }

def addUnits (registry : Registry) (forest : Forest) (scene : Scene)
    (units : List (Unit × Outputs)) : Except Failure Scene :=
  units.foldlM (fun scene u => addUnit registry forest scene u.1 u.2) scene

def addPredicate (registry : Registry) (index : Index) (predicates : Keyed String String)
    (name : String) : Except Failure (Keyed String String) := do
  return predicates.put name (← Resolution.test registry index (.leaf name))

def predicates (registry : Registry) (index : Index) : Except Failure (Keyed String String) :=
  index.keys.foldlM (addPredicate registry index) .empty

def drivenScales (u : Unit) : List (String × String) :=
  u.selections.values.flatMap fun s =>
    s.scales.map fun c => (u.context.scaleName c, s.dataSignal c)

def followingScales (registry : Registry) (index : Index) (u : Unit) :
    Except Failure (List (String × String)) :=
  (u.context.view.encoding.entries.filterMap fun entry =>
    entry.2.selectionDomain?.map fun d => (entry.1, d)).mapM fun (c, d) => do
      let signal ← Resolution.domainSignal registry index u.context.unitName d.placeholder
      return (u.context.scaleName c, signal)

def addScaleDomains (registry : Registry) (index : Index) (domains : Keyed String String)
    (u : Unit) : Except Failure (Keyed String String) := do
  let following ← followingScales registry index u
  return (domains.putAll (drivenScales u)).putAll following

def scaleDomains (registry : Registry) (index : Index) (units : List Unit) :
    Except Failure (Keyed String String) :=
  units.foldlM (addScaleDomains registry index) .empty

end Compilation

open Compilation in
def compile (config : Config) (registry : Registry) (spec : Spec) : Except Failure Compiled := do
  let units ← units spec registry config.selection
  let index := indexOf units
  let (forest, demand, outputs) ← arranged config registry index spec
  let (forest, data) := forest.assemble demand
  let scene ← addUnits registry forest ⟨data, [], [], []⟩ (units.zip outputs)
  let predicates ← predicates registry index
  let scaleDomains ← scaleDomains registry index units
  return {
    data := scene.data
    signals := scene.topSignals ++ scene.unitSignals
    marks := scene.marks
    predicates
    scaleDomains }

namespace Compiled

def signalFields (m : Keyed String String) : Json :=
  .obj (m.entries.map fun entry => (entry.1, Output.signalReference entry.2))

def toJson (c : Compiled) : Json :=
  .obj [("data", .arr (c.data.map Dataset.toJson)),
    ("signals", .arr (c.signals.map Signal.toJson)),
    ("marks", .arr (c.marks.map Mark.toJson)),
    ("predicates", Dataset.textFields c.predicates),
    ("scale_domains", signalFields c.scaleDomains)]

end Compiled
end Viewflow
