import Viewflow.Output.Dataset

namespace Viewflow.Output

structure Handler where
  events : Json
  update : String
  force : Bool := false

structure Signal where
  name : String
  value : Option Json := none
  update : Option String := none
  handlers : List Handler := []
  bind : Option Json := none
  -- whether updates go to the signal of the same name in the scope around
  pushesOut : Bool := false

namespace Handler

def onSignal (signal update : String) : Handler := { events := signalReference signal, update }

def toJson (h : Handler) : Json :=
  .obj ([("events", h.events), ("update", .str h.update)] ++
    if h.force then [("force", .bool true)] else [])

end Handler

namespace Signal

def names (signals : List Signal) : List String := signals.map (·.name)

def present (signals : List Signal) (name : String) : Bool := signals.any fun s => s.name == name

def on (s : Signal) (h : Handler) : Signal := { s with handlers := s.handlers ++ [h] }

def change (name : String) (f : Signal → Signal) : List Signal → List Signal
  | [] => []
  | s :: rest => if s.name = name then f s :: rest else s :: change name f rest

def toJson (s : Signal) : Json :=
  .obj ([("name", .str s.name)] ++ Dataset.optionalFields
    [("value", s.value), ("update", s.update.map .str),
      ("on", if s.handlers.isEmpty then none else some (.arr (s.handlers.map Handler.toJson))),
      ("bind", s.bind), ("push", if s.pushesOut then some (.str "outer") else none)])

end Signal
end Viewflow.Output
