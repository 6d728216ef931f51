import Viewflow.Selection.Point

namespace Viewflow.Refinement
open Output (Signal)

def toggleSignal (s : Selection) : String := s.name ++ "_toggle"

def toggleSignals (_ : UnitContext) (s : Selection) (signals : List Signal) : List Signal :=
  signals ++
    [{ name := toggleSignal s
       value := some (.bool false)
       handlers := [{ events := s.events, update := s.toggle.getD "" }] }]

def toggleArguments (ctx : UnitContext) (s : Selection) (_ : String) : String :=
  let toggle := toggleSignal s
  toggle ++ " ? null : " ++ s.tuple ++ ", " ++ toggle ++ " ? null : " ++
    Point.removal ctx s "true" ++ ", " ++ toggle ++ " ? " ++ s.tuple ++ " : null"

def toggle : Refinement where
  name := "toggle"
  applies := fun s => s.type == "multi" && s.toggle.isSome
  signals := toggleSignals
  modifyArguments := toggleArguments

def inputSignal (s : Selection) (p : Projection) : String :=
  Text.identifier (s.name ++ "_" ++ p.fieldName)

def widgetsJson (widgets : Keyed String Json) : Json := Json.object widgets.entries

def widgetFor (s : Selection) (p : Projection) : Json :=
  match s.bind with
  | some (.perField widgets) =>
    let byField := widgets.find? p.fieldName
    let byChannel := p.channel?.bind fun c => widgets.find? c.name
    (byField <|> byChannel).getD (widgetsJson widgets)
  | some (.input widget) => widget
  | _ => .null

def addInput (s : Selection) (signals : List Signal) (p : Projection) : List Signal :=
  let name := inputSignal s p
  if Signal.present signals name then signals else
  let update := "datum && item().mark.marktype !== 'group' ? " ++
    Text.AccessPath.guarded p.fieldName s.datum ++ " : null"
  let signal : Signal :=
    { name
      value := some (.str "")
      handlers := [{ events := s.events, update }]
      bind := some (widgetFor s p) }
  signal :: signals

def topLevelInputs (_ : UnitContext) (s : Selection) (signals : List Signal) : List Signal :=
  s.project.foldl (addInput s) signals

def inputTuple (s : Selection) : String :=
  if s.project.isEmpty then "null" else
  let inputs := s.project.map (inputSignal s)
  Text.joined " && " inputs ++ " ? \x7bfields: [" ++
    Text.joined ", " (s.project.map fun p => Text.quote p.fieldName) ++ "], values: [" ++
    Text.joined ", " inputs ++ "]\x7d : null"

def inputSignals (_ : UnitContext) (s : Selection) (signals : List Signal) : List Signal :=
  Signal.change s.tuple
    (fun signal => { signal with update := some (inputTuple s), value := none, handlers := [] })
    signals

def hasWidgets (s : Selection) : Bool :=
  match s.bind with
  | some (.input _) | some (.perField _) => true
  | _ => false

def inputs : Refinement where
  name := "inputs"
  applies := fun s => s.type == "single" && s.resolve == .global && hasWidgets s
  signals := inputSignals
  topLevelSignals := topLevelInputs

end Viewflow.Refinement
