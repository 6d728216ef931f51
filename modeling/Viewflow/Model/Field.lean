import Viewflow.Model.Domain
import Viewflow.Text.Basic

namespace Viewflow

inductive FieldType where
  | quantitative | temporal | ordinal | nominal
deriving DecidableEq, Repr

namespace FieldType

def ofName? (s : String) : Option FieldType :=
  if s = "quantitative" then some .quantitative
  else if s = "temporal" then some .temporal
  else if s = "ordinal" then some .ordinal
  else if s = "nominal" then some .nominal
  else none

def isContinuous : FieldType → Bool
  | .quantitative | .temporal => true
  | .ordinal | .nominal => false

end FieldType

structure FieldDef where
  field : Option String
  type : FieldType
  aggregate : Option String
  bin : Bool
  timeUnit : Option String
  domain : Option ScaleDomain

def defaultMaxBins : Nat := 10

def binField (field : String) : String :=
  Text.identifier ("bin_maxbins_" ++ toString defaultMaxBins ++ "_" ++ field)

def binEnd (start : String) : String := start ++ "_end"

namespace FieldDef

def outputField (d : FieldDef) : String :=
  let field := d.field.getD "*"
  match d.aggregate with
  | some op => if op = "count" then "count_*" else Text.identifier (op ++ "_" ++ field)
  | none =>
    if d.bin then binField field
    else match d.timeUnit with
      | some unit => Text.identifier (unit ++ "_" ++ field)
      | none => field

def isContinuous (d : FieldDef) : Bool := d.type.isContinuous && !d.bin

def selectionDomain? (d : FieldDef) : Option SelectionDomain :=
  match d.domain with
  | some (.selection s) => some s
  | _ => none

def readScale : Json.Reader (Option ScaleDomain) := fun v => do
  let r ← Json.asRecord v
  r.optional "domain" ScaleDomain.ofDocument?

def ofDocument? : Json.Reader FieldDef := fun v => do
  let r ← Json.asRecord v
  return {
    field := ← r.optional "field" Json.asString
    type := ← r.required "type" (Json.asName FieldType.ofName?)
    aggregate := ← r.optional "aggregate" Json.asString
    bin := ← r.defaulted "bin" false Json.asBool
    timeUnit := ← r.optional "timeUnit" Json.asString
    domain := (← r.optional "scale" readScale).join }

end FieldDef
end Viewflow
