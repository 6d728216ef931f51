import Viewflow.Selection.Refinement.Cells
import Viewflow.Selection.Refinement.Gesture
import Viewflow.Selection.Refinement.PointInput
import Viewflow.Selection.Refinement.Projection

namespace Viewflow.Refinement
open Output (Handler Signal)

def latestSignals (ctx : UnitContext) (s : Selection) (signals : List Signal) : List Signal :=
  let handlers := [Handler.onSignal s.tuple ctx.quotedUnit]
  signals ++
    [if ctx.composed then { name := s.unit, handlers, pushesOut := true }
      else { name := s.unit, handlers, value := some .null }]

def topLevelLatest (ctx : UnitContext) (s : Selection) (signals : List Signal) : List Signal :=
  if ctx.composed then addMissing signals { name := s.unit, value := some .null } else signals

def latest : Refinement where
  name := "latest"
  applies := fun s => s.resolve == .single
  signals := latestSignals
  topLevelSignals := topLevelLatest

def all : List Refinement :=
  [project, toggle, scales, translate, zoom, inputs, nearest, latest]

def ofName? (name : String) : Option Refinement := all.find? fun r => r.name == name

def applicable (s : Selection) : List Refinement := all.filter fun r => r.applies s

end Viewflow.Refinement
