import Viewflow.Selection.Technique

namespace Viewflow.Refinement
open Output (Signal)

-- Only continuous scales without bins can be driven.
def drivenChannels (ctx : UnitContext) (s : Selection) : List Channel :=
  (s.project.filterMap (·.channel?)).filter ctx.isContinuous

def pushOut (s : Selection) (signals : List Signal) (c : Channel) : List Signal :=
  Signal.change (s.dataSignal c)
    (fun signal => { signal with pushesOut := true, value := none, update := none }) signals

def scaleSignals (ctx : UnitContext) (s : Selection) (signals : List Signal) : List Signal :=
  if ctx.composed then s.scales.foldl (pushOut s) signals else signals

def addMissing (signals : List Signal) (signal : Signal) : List Signal :=
  if Signal.present signals signal.name then signals else signals ++ [signal]

def topLevelScaleSignals (ctx : UnitContext) (s : Selection) (signals : List Signal) :
    List Signal :=
  if ctx.composed then
    s.scales.foldl (fun signals c => addMissing signals { name := s.dataSignal c }) signals
  else signals

def scales : Refinement where
  name := "scales"
  applies := fun s => s.type == "interval" && s.resolve == .global && s.bindsScales
  complete := fun ctx _ s => .ok { s with scales := drivenChannels ctx s }
  signals := scaleSignals
  topLevelSignals := topLevelScaleSignals

def domainText (ctx : UnitContext) (c : Channel) : String :=
  "domain(" ++ ctx.quotedScale c ++ ")"

-- The signal that moves with a gesture: the data of a driven scale, else the brush on the screen.
def movedSignal (s : Selection) (c : Channel) : String :=
  if s.bindsScales then s.dataSignal c else s.visualSignal c

def within (s : Selection) (moved size : String) : String :=
  if s.bindsScales then moved else "clampRange(" ++ moved ++ ", 0, " ++ size ++ ")"

def onPositions (s : Selection) (change : Channel → Signal → Signal) (signals : List Signal) :
    List Signal :=
  ([Channel.x, .y].filter s.projects).foldl
    (fun signals c => Signal.change (movedSignal s c) (change c) signals) signals

end Viewflow.Refinement
