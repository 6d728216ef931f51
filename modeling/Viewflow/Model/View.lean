import Viewflow.Keyed
import Viewflow.Model.DataRef
import Viewflow.Model.Field
import Viewflow.Model.SelectionDef
import Viewflow.Model.Transform

namespace Viewflow

structure UnitView where
  name : String
  data : DataRef
  transform : List TransformDef
  encoding : Keyed Channel FieldDef
  selection : Keyed String SelectionDef
  mark : String

structure Spec where
  views : List UnitView

namespace UnitView

def unitName (v : UnitView) : String := Text.identifier v.name

def fieldDef? (v : UnitView) (c : Channel) : Option FieldDef := v.encoding.find? c

def calculatedFields (v : UnitView) : List String :=
  v.transform.filterMap fun t =>
    match t with
    | .calculate _ into => some into
    | .filter _ => none

def readKeyed {κ ν : Type} [DecidableEq κ] (readKey : String → Option κ) (read : Json.Reader ν) :
    Json.Reader (Keyed κ ν) := fun v => do
  let fields ← Json.asRecord v
  let entries ← fields.mapM fun field => do return (← readKey field.1, ← read field.2)
  return Keyed.ofList entries

def ofDocument? : Json.Reader UnitView := fun v => do
  let r ← Json.asRecord v
  return {
    name := ← r.required "name" Json.asString
    data := ← r.required "data" DataRef.ofDocument?
    transform := ← r.defaulted "transform" [] (Json.asList TransformDef.ofDocument?)
    encoding := ← r.defaulted "encoding" .empty (readKeyed Channel.ofName? FieldDef.ofDocument?)
    selection := ← r.defaulted "selection" .empty (readKeyed some SelectionDef.ofDocument?)
    mark := ← r.defaulted "mark" "point" Json.asString }

end UnitView

def Spec.ofDocument? : Json.Reader Spec := fun v => do
  let r ← Json.asRecord v
  return ⟨← r.required "views" (Json.asList UnitView.ofDocument?)⟩

end Viewflow
