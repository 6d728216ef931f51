import Viewflow.Json.Basic

namespace Viewflow.Output

inductive Transform where
  | formula (expression into : String)
  | filter (expression : String)
  | extent (field signal : String)
  | bin (field start stop signal extentSignal : String) (maxBins : Nat)
  -- a measure without a field counts
  | aggregate (groupBy ops : List String) (fields : List (Option String)) (into : List String)
  | identifier (into : String)
deriving DecidableEq, Repr

def textItems (texts : List String) : Json := .arr (texts.map .str)

def textOrNull : Option String → Json
  | some s => .str s
  | none => .null

def signalReference (name : String) : Json := .obj [("signal", .str name)]

def Transform.toJson : Transform → Json
  | .formula expression into =>
    .obj [("type", .str "formula"), ("expr", .str expression), ("as", .str into)]
  | .filter expression => .obj [("type", .str "filter"), ("expr", .str expression)]
  | .extent field signal =>
    .obj [("type", .str "extent"), ("field", .str field), ("signal", .str signal)]
  | .bin field start stop signal extentSignal maxBins =>
    .obj [("type", .str "bin"), ("field", .str field), ("as", textItems [start, stop]),
      ("signal", .str signal), ("extent", signalReference extentSignal),
      ("maxbins", Json.ofNat maxBins)]
  | .aggregate groupBy ops fields into =>
    .obj [("type", .str "aggregate"), ("groupby", textItems groupBy), ("ops", textItems ops),
      ("fields", .arr (fields.map textOrNull)), ("as", textItems into)]
  | .identifier into => .obj [("type", .str "identifier"), ("as", .str into)]

end Viewflow.Output
