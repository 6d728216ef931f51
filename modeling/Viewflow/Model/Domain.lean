import Viewflow.Channel
import Viewflow.Json.Field

namespace Viewflow

structure SelectionDomain where
  selection : String
  encoding : Option Channel
  field : Option String
deriving DecidableEq, Repr

namespace SelectionDomain

def toFields (d : SelectionDomain) : List (String × Json) :=
  [("selection", .str d.selection)] ++ d.encoding.toList.map (fun c => ("encoding", .str c.name)) ++
    d.field.toList.map fun f => ("field", .str f)

def toJson (d : SelectionDomain) : Json := .obj d.toFields

def readRecord : Json.Reader SelectionDomain := fun v => do
  let r ← Json.asRecord v
  return ⟨← r.required "selection" Json.asString,
    ← r.optional "encoding" (Json.asName Channel.ofName?), ← r.optional "field" Json.asString⟩

def readEncoding : Json.Reader (Option Channel) := Json.asNullable (Json.asName Channel.ofName?)

def readField : Json.Reader (Option String) := Json.asNullable Json.asString

def readPositions : Json.Reader SelectionDomain
  | .arr [s] => do return ⟨← Json.asString s, none, none⟩
  | .arr [s, e] => do return ⟨← Json.asString s, ← readEncoding e, none⟩
  | .arr [s, e, f] => do return ⟨← Json.asString s, ← readEncoding e, ← readField f⟩
  | _ => none

def ofDocument? : Json.Reader SelectionDomain := fun v => readRecord v <|> readPositions v

end SelectionDomain

inductive ScaleDomain where
  | selection (domain : SelectionDomain)
  | literal (value : Json)

namespace ScaleDomain

def readSelection : Json.Reader ScaleDomain := fun v =>
  (SelectionDomain.ofDocument? v).map .selection

def readLiteral : Json.Reader ScaleDomain := fun v => (Json.asVerbatim v).map .literal

def ofDocument? : Json.Reader ScaleDomain := Json.asFirst [readSelection, readLiteral]

end ScaleDomain

end Viewflow
