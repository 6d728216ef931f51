import Viewflow.Channel
import Viewflow.Json.Field

namespace Viewflow

inductive ResolveMode where
  | global | union | intersect
  -- only the instance that changed last counts
  | single
deriving DecidableEq, Repr, Inhabited

namespace ResolveMode

def name : ResolveMode → String
  | .global => "global"
  | .union => "union"
  | .intersect => "intersect"
  | .single => "single"

def ofName? (s : String) : Option ResolveMode :=
  [ResolveMode.global, .union, .intersect, .single].find? fun m => m.name == s

end ResolveMode

inductive EmptyMode where
  | all | none
deriving DecidableEq, Repr, Inhabited

namespace EmptyMode

def name : EmptyMode → String
  | .all => "all"
  | .none => "none"

def ofName? (s : String) : Option EmptyMode := [EmptyMode.all, .none].find? fun m => m.name == s

end EmptyMode

structure ProjectDef where
  field : Option String
  encoding : Option Channel
deriving DecidableEq

structure SelectionDef where
  type : String := ""
  on : Option Json := none
  bind : Option Json := none
  resolve : Option ResolveMode := none
  empty : Option EmptyMode := none
  fields : Option (List String) := none
  encodings : Option (List Channel) := none
  project : Option (List ProjectDef) := none
  -- each of these is a boolean, an expression or an event stream
  toggle : Option Json := none
  translate : Option Json := none
  zoom : Option Json := none
  nearest : Option Bool := none
  mark : Option Json := none

def readChannel : Json.Reader Channel := Json.asName Channel.ofName?

def ProjectDef.ofDocument? : Json.Reader ProjectDef := fun v => do
  let r ← Json.asRecord v
  return ⟨← r.optional "field" Json.asString, ← r.optional "encoding" readChannel⟩

def SelectionDef.ofDocument? : Json.Reader SelectionDef := fun v => do
  let r ← Json.asRecord v
  return {
    type := ← r.defaulted "type" "" Json.asString
    on := ← r.optional "on" Json.asVerbatim
    bind := ← r.optional "bind" Json.asVerbatim
    resolve := ← r.optional "resolve" (Json.asName ResolveMode.ofName?)
    empty := ← r.optional "empty" (Json.asName EmptyMode.ofName?)
    fields := ← r.optional "fields" (Json.asList Json.asString)
    encodings := ← r.optional "encodings" (Json.asList readChannel)
    project := ← r.optional "project" (Json.asList ProjectDef.ofDocument?)
    toggle := ← r.optional "toggle" Json.asVerbatim
    translate := ← r.optional "translate" Json.asVerbatim
    zoom := ← r.optional "zoom" Json.asVerbatim
    nearest := ← r.optional "nearest" Json.asBool
    mark := ← r.optional "mark" Json.asVerbatim }

end Viewflow
