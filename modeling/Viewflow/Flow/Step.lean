import Viewflow.Distinct
import Viewflow.Model.DataRef
import Viewflow.Output.Dataset
import Viewflow.Text.Basic
import Viewflow.Text.DatumField
import Viewflow.TimeUnit

namespace Viewflow.Flow
open Output (Transform)

def tupleId : String := "_vgsid_"

inductive Coercion where
  | number | boolean | date | string
deriving DecidableEq, Repr

namespace Coercion

def name : Coercion → String
  | .number => "number"
  | .boolean => "boolean"
  | .date => "date"
  | .string => "string"

def ofName? (s : String) : Option Coercion :=
  [Coercion.number, .boolean, .date, .string].find? fun c => c.name == s

def function : Coercion → String
  | .number => "toNumber"
  | .boolean => "toBoolean"
  | .date => "toDate"
  | .string => "toString"

end Coercion

structure Measure where
  op : String
  -- none for a count
  field : Option String
  into : String
deriving DecidableEq, Repr

inductive OutputKind where
  | raw
  | main
deriving DecidableEq, Repr

-- A named boundary. The name stays; the source becomes the dataset that stands for it in the end.
structure Boundary where
  name : String
  source : String
  kind : OutputKind
deriving DecidableEq, Repr

def Boundary.fresh (name : String) (kind : OutputKind) : Boundary := ⟨name, name, kind⟩

structure Demand where
  counts : Keyed String Nat

namespace Demand

def empty : Demand := ⟨.empty⟩

def count (d : Demand) (name : String) : Nat := (d.counts.find? name).getD 0

def isRequired (d : Demand) (name : String) : Bool := 0 < d.count name

def register (d : Demand) (name : String) : Demand := ⟨d.counts.putNew name 0⟩

def request (d : Demand) (name : String) : Demand := ⟨d.counts.put name (d.count name + 1)⟩

end Demand

inductive Step where
  | source (data : DataRef)
  | parse (fields : Keyed String Coercion)
  | formula (expression into : String)
  | filter (expression : String) (fields : Distinct String)
  | bin (field start stop : String) (maxBins : Nat)
  | timeUnit (field unit into : String)
  | aggregate (groupBy : List String) (measures : List Measure)
  | identifier
  | output (boundary : Boundary)

namespace Step

instance : Inhabited Step := ⟨.identifier⟩

def boundary? : Step → Option Boundary
  | .output b => some b
  | _ => none

def isSource : Step → Bool
  | .source _ => true
  | _ => false

def isParse : Step → Bool
  | .parse _ => true
  | _ => false

def isOutput (s : Step) : Bool := s.boundary?.isSome

-- Equal steps do the same. Coerced and read fields are compared whatever their order.
def same : Step → Step → Bool
  | .source a, .source b => a.same b
  | .parse as, .parse bs => as.agrees bs
  | .formula e i, .formula f j => e == f && i == j
  | .filter e as, .filter f bs => e == f && as.agrees bs
  | .bin f s t m, .bin g u v n => f == g && s == u && t == v && m == n
  | .timeUnit f u i, .timeUnit g v j => f == g && u == v && i == j
  | .aggregate gs ms, .aggregate hs ns => gs == hs && ms == ns
  | .identifier, .identifier => true
  | .output a, .output b => a == b
  | _, _ => false

def coercionFormulas (fields : Keyed String Coercion) : List Transform :=
  fields.entries.map fun entry =>
    .formula (entry.2.function ++ "(" ++ Text.AccessPath.guarded entry.1 "datum" ++ ")") entry.1

def transforms : Step → List Transform
  | .source _ | .output _ => []
  | .parse fields => coercionFormulas fields
  | .formula expression into => [.formula expression into]
  | .filter expression _ => [.filter expression]
  | .bin field start stop maxBins =>
    let stem := Text.identifier start
    [.extent field (stem ++ "_extent"),
      .bin field start stop (stem ++ "_bins") (stem ++ "_extent") maxBins]
  | .timeUnit field unit into => [.formula (TimeUnit.expression unit field) into]
  | .aggregate groupBy measures =>
    [.aggregate groupBy (measures.map (·.op)) (measures.map (·.field)) (measures.map (·.into))]
  | .identifier => [.identifier tupleId]

def produced : Step → Distinct String
  | .source _ | .filter .. | .output _ => .empty
  | .parse fields => .ofList fields.keys
  | .formula _ into => .single into
  | .timeUnit _ _ into => .single into
  | .bin _ start stop _ => .ofList [start, stop]
  | .aggregate groupBy measures => .ofList (groupBy ++ measures.map (·.into))
  | .identifier => .single tupleId

def expressionFields (expression : String) : Distinct String :=
  .ofList (Text.DatumField.fields expression)

def dependent : Step → Distinct String
  | .source _ | .identifier | .output _ => .empty
  | .parse fields => .ofList fields.keys
  | .formula expression _ => expressionFields expression
  | .filter _ fields => fields
  | .bin field .. => .single field
  | .timeUnit field .. => .single field
  | .aggregate groupBy measures => .ofList (groupBy ++ measures.filterMap (·.field))

end Step
end Viewflow.Flow
