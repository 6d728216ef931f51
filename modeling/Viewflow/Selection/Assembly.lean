import Viewflow.Output.Dataset
import Viewflow.Selection.Refinement
import Viewflow.Selection.Technique

namespace Viewflow.Selections
open Output (Dataset Handler Mark Signal)

def storeUpdate (ctx : UnitContext) (technique : Technique) (s : Selection) : Signal :=
  let arguments := (Refinement.applicable s).foldl (fun a r => r.modifyArguments ctx s a)
    (technique.modifyArguments ctx s)
  { name := s.modify
    handlers :=
      [.onSignal s.tuple ("modify(" ++ s.quotedStore ++ ", " ++ arguments ++ ")")] }

def addSignals (ctx : UnitContext) (registry : Registry) (signals : List Signal) (s : Selection) :
    Except Failure (List Signal) := do
  let technique ← registry.lookup s.name s.type
  let refined := (Refinement.applicable s).foldl (fun signals r => r.signals ctx s signals)
    (signals ++ technique.signals ctx s)
  return refined ++ [storeUpdate ctx technique s]

def signals (ctx : UnitContext) (registry : Registry) (selections : Selections)
    (before : List Signal) : Except Failure (List Signal) :=
  selections.values.foldlM (addSignals ctx registry) before

def unitSignal : Signal :=
  { name := "unit"
    value := some (.obj [])
    handlers := [{ events := .str "mousemove", update := "isTuple(group()) ? group() : unit" }] }

def addTopLevelSignals (ctx : UnitContext) (registry : Registry) (signals : List Signal)
    (s : Selection) : Except Failure (List Signal) := do
  let technique ← registry.lookup s.name s.type
  return (Refinement.applicable s).foldl (fun signals r => r.topLevelSignals ctx s signals)
    (technique.topLevelSignals ctx s signals)

-- The signals above the view. Any selection at all needs to know the view under the pointer.
def topLevelSignals (ctx : UnitContext) (registry : Registry) (selections : Selections)
    (before : List Signal) : Except Failure (List Signal) := do
  let signals ← selections.values.foldlM (addTopLevelSignals ctx registry) before
  if selections.isEmpty || Signal.present signals "unit" then return signals
  return unitSignal :: signals

def addStore (datasets : List Dataset) (s : Selection) : List Dataset :=
  if (Dataset.names datasets).contains s.store then datasets
  else datasets ++ [Dataset.named s.store]

def stores (selections : Selections) (before : List Dataset) : List Dataset :=
  selections.values.foldl addStore before

def addMarks (ctx : UnitContext) (registry : Registry) (marks : List Mark) (s : Selection) :
    Except Failure (List Mark) := do
  let technique ← registry.lookup s.name s.type
  return (Refinement.applicable s).foldl (fun marks r => r.marks ctx s marks)
    (technique.marks ctx s marks)

def marks (ctx : UnitContext) (registry : Registry) (selections : Selections)
    (before : List Mark) : Except Failure (List Mark) :=
  selections.values.foldlM (addMarks ctx registry) before

end Viewflow.Selections
