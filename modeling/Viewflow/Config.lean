import Viewflow.Flow.Optimize
import Viewflow.Flow.Step
import Viewflow.Model.SelectionDef

namespace Viewflow

structure SelectionDefaults where
  on : Option Json := none
  resolve : ResolveMode := .global
  empty : EmptyMode := .all
  fields : List String := []
  encodings : List Channel := []
  toggle : Option String := none
  translate : Option String := none
  zoom : Option String := none
  nearest : Bool := false
  mark : Option Json := none

def dragEvents : String := "[mousedown, window:mouseup] > window:mousemove!"

structure SelectionConfig where
  single : SelectionDefaults :=
    { on := some (.str "click"), fields := [Flow.tupleId] }
  multi : SelectionDefaults :=
    { on := some (.str "click"), fields := [Flow.tupleId], toggle := some "event.shiftKey" }
  interval : SelectionDefaults :=
    { on := some (.str dragEvents), encodings := [.x, .y], translate := some dragEvents
      zoom := some "wheel!"
      mark := some (.obj [("fill", .str "#333"),
        ("fillOpacity", .num (.floating ⟨false, Binary64.fullSignificand, -55⟩)), ("stroke", .str "white")]) }

def SelectionConfig.defaultsFor? (c : SelectionConfig) (type : String) : Option SelectionDefaults :=
  if type = "single" then some c.single
  else if type = "multi" then some c.multi
  else if type = "interval" then some c.interval
  else none

structure Config where
  selection : SelectionConfig := {}
  optimize : Bool := true
  maxRounds : Nat := Flow.Forest.defaultRounds

-- Defaults that are given say everything: what they leave out is nothing, not the built-in value.
def SelectionDefaults.ofDocument? : Json.Reader SelectionDefaults := fun v => do
  let r ← Json.asRecord v
  return {
    on := ← r.optional "on" Json.asVerbatim
    resolve := ← r.defaulted "resolve" .global (Json.asName ResolveMode.ofName?)
    empty := ← r.defaulted "empty" .all (Json.asName EmptyMode.ofName?)
    fields := ← r.defaulted "fields" [] (Json.asList Json.asString)
    encodings := ← r.defaulted "encodings" [] (Json.asList readChannel)
    toggle := ← r.optional "toggle" Json.asString
    translate := ← r.optional "translate" Json.asString
    zoom := ← r.optional "zoom" Json.asString
    nearest := ← r.defaulted "nearest" false Json.asBool
    mark := ← r.optional "mark" Json.asVerbatim }

def SelectionConfig.ofDocument? : Json.Reader SelectionConfig := fun v => do
  let r ← Json.asRecord v
  let builtIn : SelectionConfig := {}
  return {
    single := ← r.defaulted "single" builtIn.single SelectionDefaults.ofDocument?
    multi := ← r.defaulted "multi" builtIn.multi SelectionDefaults.ofDocument?
    interval := ← r.defaulted "interval" builtIn.interval SelectionDefaults.ofDocument? }

def Config.asCount : Json.Reader Nat := Json.asNatBelow Json.Number.unsignedBound

def Config.ofDocument? : Json.Reader Config := fun v => do
  let r ← Json.asRecord v
  let builtIn : Config := {}
  return {
    selection := ← r.defaulted "selection" builtIn.selection SelectionConfig.ofDocument?
    optimize := ← r.defaulted "optimize" builtIn.optimize Json.asBool
    maxRounds := ← r.defaulted "max_optimize_iterations" builtIn.maxRounds asCount }

end Viewflow
