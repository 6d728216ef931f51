import Viewflow.Json.Field
import Viewflow.Model.View

namespace Viewflow

inductive Projection where
  | field (field : String)
  | encoding (channel : Channel) (field : String)
deriving DecidableEq, Repr

namespace Projection

def fieldName : Projection → String
  | .field f => f
  | .encoding _ f => f

def channel? : Projection → Option Channel
  | .field _ => none
  | .encoding c _ => some c

end Projection

inductive Binding where
  | scales
  -- one widget for every projected field
  | input (widget : Json)
  -- widgets by the name of a field or channel
  | perField (widgets : Keyed String Json)

def Binding.ofJson : Json → Binding
  | .str s => if s = "scales" then .scales else .input (.str s)
  | .obj fields =>
    if fields.any fun f => f.1 = "input" then .input (.obj fields)
    else .perField (Keyed.ofList fields)
  | v => .input v

structure Selection where
  name : String
  type : String
  events : Json := .null
  bind : Option Binding := none
  resolve : ResolveMode := .global
  empty : EmptyMode := .all
  project : List Projection := []
  fields : Keyed Channel String := .empty
  scales : List Channel := []
  toggle : Option String := none
  translate : Option String := none
  zoom : Option String := none
  nearest : Bool := false
  mark : Option Json := none

structure UnitContext where
  view : UnitView
  composed : Bool

namespace UnitContext

def unitName (ctx : UnitContext) : String := ctx.view.unitName

def nameOf (ctx : UnitContext) (suffix : String) : String := ctx.unitName ++ "_" ++ suffix

def scaleName (ctx : UnitContext) (c : Channel) : String := ctx.nameOf c.name

def quotedScale (ctx : UnitContext) (c : Channel) : String := Text.quote (ctx.scaleName c)

def quotedUnit (ctx : UnitContext) : String := Text.quote ctx.unitName

def isContinuous (ctx : UnitContext) (c : Channel) : Bool :=
  match ctx.view.fieldDef? c with
  | some d => d.isContinuous
  | none => false

end UnitContext

namespace Selection

def named (name type : String) : Selection := { name := Text.identifier name, type }

def store (s : Selection) : String := s.name ++ "_store"

def tuple (s : Selection) : String := s.name ++ "_tuple"

def modify (s : Selection) : String := s.name ++ "_modify"

def unit (s : Selection) : String := s.name ++ "_unit"

def quotedStore (s : Selection) : String := Text.quote s.store

def bindsScales (s : Selection) : Bool :=
  match s.bind with
  | some .scales => true
  | _ => false

def visualSignal (s : Selection) (c : Channel) : String :=
  Text.identifier (s.name ++ "_" ++ c.name)

def dataSignal (s : Selection) (c : Channel) : String :=
  Text.identifier (s.name ++ "_" ++ (s.fields.find? c).getD c.name)

-- Whether a click takes the nearest item, by way of cells around the items.
def snaps (s : Selection) : Bool := s.type != "interval" && s.nearest

def datum (s : Selection) : String :=
  if s.snaps then "(item().isVoronoi ? datum.datum : datum)" else "datum"

def lastPlace? (s : Selection) (c : Channel) : Option Nat :=
  (s.project.zipIdx.filter fun p => p.1.channel? = some c).getLast?.map (·.2)

def projects (s : Selection) (c : Channel) : Bool := (s.lastPlace? c).isSome

end Selection

abbrev Selections := Keyed String Selection

end Viewflow
