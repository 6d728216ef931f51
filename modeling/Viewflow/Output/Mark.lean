import Viewflow.Output.Signal

namespace Viewflow.Output

inductive Mark where
  | mk (name kind : String) (data : Option String) (clip : Bool) (encode : Option Json)
      (transform : List Json) (signals : List Signal) (marks : List Mark)

namespace Mark

def plain (name kind : String) : Mark := .mk name kind none false none [] [] []

def drawn (name kind data : String) : Mark := .mk name kind (some data) false none [] [] []

def group (name : String) (signals : List Signal) (marks : List Mark) : Mark :=
  .mk name "group" none false none [] signals marks

def name : Mark → String
  | .mk name .. => name

def kind : Mark → String
  | .mk _ kind .. => kind

def signals : Mark → List Signal
  | .mk _ _ _ _ _ _ signals _ => signals

def marks : Mark → List Mark
  | .mk _ _ _ _ _ _ _ marks => marks

mutual

def toJson : Mark → Json
  | .mk name kind data clip encode transform signals marks =>
    .obj ([("name", .str name), ("type", .str kind)] ++ Dataset.optionalFields
      [("from", data.map fun d => .obj [("data", .str d)]),
        ("clip", if clip then some (.bool true) else none), ("encode", encode),
        ("transform", if transform.isEmpty then none else some (.arr transform)),
        ("signals", if signals.isEmpty then none else some (.arr (signals.map Signal.toJson))),
        ("marks", if marks.isEmpty then none else some (.arr (eachToJson marks)))])

def eachToJson : List Mark → List Json
  | [] => []
  | m :: rest => m.toJson :: eachToJson rest

end

end Mark
end Viewflow.Output
