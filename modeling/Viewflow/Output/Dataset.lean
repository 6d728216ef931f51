import Viewflow.Keyed
import Viewflow.Output.Transform

namespace Viewflow.Output

inductive Origin where
  -- filled by signals, or the start of nothing
  | nowhere
  | derived (source : String)
  | remote (address : String)
  | inline (values : List Json)

def Origin.source? : Origin → Option String
  | .derived source => some source
  | _ => none

structure Format where
  kind : Option String
  coercions : Keyed String String
deriving DecidableEq

structure Recipe where
  origin : Origin
  format : Option Format
  transforms : List Transform

namespace Recipe

def blank : Recipe := ⟨.nowhere, none, []⟩

def derived (source : String) : Recipe := ⟨.derived source, none, []⟩

def alias? (r : Recipe) : Option String :=
  if r.transforms.isEmpty && r.format.isNone then r.origin.source? else none

end Recipe

structure Dataset where
  name : String
  recipe : Recipe

namespace Dataset

def named (name : String) : Dataset := ⟨name, .blank⟩

def names (datasets : List Dataset) : List String := datasets.map (·.name)

def optionalFields (fields : List (String × Option Json)) : List (String × Json) :=
  fields.filterMap fun field => field.2.map fun v => (field.1, v)

def formatJson (coercionsJson : Keyed String String → Json) (f : Format) : Json :=
  .obj (optionalFields
    [("type", f.kind.map .str),
      ("parse", if f.coercions.isEmpty then none else some (coercionsJson f.coercions))])

def originFields : Origin → List (String × Json)
  | .nowhere => []
  | .derived source => [("source", .str source)]
  | .remote address => [("url", .str address)]
  | .inline values => [("values", .arr values)]

def toJsonWith (coercionsJson : Keyed String String → Json) (d : Dataset) : Json :=
  .obj ([("name", .str d.name)] ++ originFields d.recipe.origin ++
    optionalFields
      [("format", d.recipe.format.map (formatJson coercionsJson)),
        ("transform", if d.recipe.transforms.isEmpty then none
          else some (.arr (d.recipe.transforms.map Transform.toJson)))])

def textFields (m : Keyed String String) : Json :=
  .obj (m.entries.map fun entry => (entry.1, .str entry.2))

def toJson : Dataset → Json := toJsonWith textFields

end Dataset
end Viewflow.Output
