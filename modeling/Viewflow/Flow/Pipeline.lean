import Viewflow.Flow.Edit
import Viewflow.Model.View
import Viewflow.Selection.Resolution

namespace Viewflow.Flow

abbrev NamedStep := String × Step

-- Early are the view's own transforms, coercions and tuple numbers; late, past the raw output, are bins,
-- time units and an aggregate.
structure Pipeline where
  early : List NamedStep
  late : List NamedStep

namespace Pipeline

def filterText (registry : Registry) (index : Index) : FilterDef → Except Failure String
  | .expression text => .ok text
  | .selection operand => Resolution.test registry index operand

def transformStep (registry : Registry) (index : Index) :
    TransformDef → Except Failure NamedStep
  | .calculate expression into => .ok ("formula", .formula expression into)
  | .filter filter => do
    let text ← filterText registry index filter
    return ("filter", .filter text (Step.expressionFields text))

def coercionOf : FieldType → Option Coercion
  | .quantitative => some .number
  | .temporal => some .date
  | .ordinal | .nominal => none

-- The coercion of an encoded field. What the view computes is typed already, and a count reads
-- no field.
def coerced? (v : UnitView) (d : FieldDef) : Option (String × Coercion) := do
  let field ← d.field
  if v.calculatedFields.contains field || d.aggregate = some "count" then none
  else return (field, ← coercionOf d.type)

def coercions (v : UnitView) : Keyed String Coercion :=
  (v.encoding.values.filterMap (coerced? v)).foldl
    (fun fields entry => fields.putNew entry.1 entry.2) .empty

def coercionSteps (v : UnitView) : List NamedStep :=
  let fields := coercions v
  if fields.isEmpty then [] else [("parse", .parse fields)]

def needsTupleId (index : Index) (v : UnitView) : Bool :=
  (index.inView v.unitName).any fun s => s.project.any fun p => p.fieldName == tupleId

def identifierSteps (index : Index) (v : UnitView) : List NamedStep :=
  if needsTupleId index v then [("identifier", .identifier)] else []

def encodingSteps (d : FieldDef) : Except Failure (List NamedStep) :=
  match d.field, d.aggregate with
  | some field, none =>
    if d.bin then
      let start := binField field
      .ok [("bin", .bin field start (binEnd start) defaultMaxBins)]
    else match d.timeUnit with
      | some unit =>
        if TimeUnit.isKnown unit then .ok [("timeunit", .timeUnit field unit d.outputField)]
        else .error (.invalidModel ("unknown time unit `" ++ unit ++ "` on field `" ++ field ++ "`"))
      | none => .ok []
  | _, _ => .ok []

def eachEncodingSteps : List FieldDef → Except Failure (List NamedStep)
  | [] => .ok []
  | d :: rest => do return (← encodingSteps d) ++ (← eachEncodingSteps rest)

def measure? (d : FieldDef) : Option Measure :=
  d.aggregate.map fun op =>
    { op, field := if op = "count" then none else d.field, into := d.outputField }

def groupFields (d : FieldDef) : List String :=
  if d.aggregate.isSome || d.field.isNone then []
  else d.outputField :: if d.bin then [binEnd d.outputField] else []

def aggregateSteps (v : UnitView) : List NamedStep :=
  let measures := v.encoding.values.filterMap measure?
  if measures.isEmpty then []
  else [("aggregate", .aggregate (v.encoding.values.flatMap groupFields) measures)]

def ofView (registry : Registry) (index : Index) (v : UnitView) : Except Failure Pipeline := do
  let own ← v.transform.mapM (transformStep registry index)
  let encoded ← eachEncodingSteps v.encoding.values
  return {
    early := own ++ coercionSteps v ++ identifierSteps index v
    late := encoded ++ aggregateSteps v }

end Pipeline
end Viewflow.Flow
