import Viewflow.Selection.Brush
import Viewflow.Selection.Refinement.DrivenScales

namespace Viewflow.Refinement
open EventStream (Between)
open Output (Handler Signal)

def panAnchor (s : Selection) : String := s.name ++ "_translate_anchor"

def panDelta (s : Selection) : String := s.name ++ "_translate_delta"

def panEvents (s : Selection) : List Between :=
  (s.translate.toList.filterMap fun stream => Between.read? stream.toList).map fun b =>
    if s.bindsScales then b else b.startOnMark (Brush.markName s).toList

def panExtent (ctx : UnitContext) (s : Selection) (c : Channel) : String :=
  ", extent_" ++ c.name ++ ": " ++
    if s.bindsScales then domainText ctx c else "slice(" ++ s.visualSignal c ++ ")"

def panStart (ctx : UnitContext) (s : Selection) : String :=
  "\x7bx: x(unit), y: y(unit)" ++ (if s.projects .x then panExtent ctx s .x else "") ++
    (if s.projects .y then panExtent ctx s .y else "") ++ "\x7d"

-- Along x, a scale's domain moves against the drag.
def panUpdate (s : Selection) (c : Channel) : String :=
  let size := Brush.sizeOf c
  let extent := panAnchor s ++ ".extent_" ++ c.name
  let delta := panDelta s ++ "." ++ c.name
  let sign := if s.bindsScales && c == .x then "-" else ""
  let offset := sign ++ delta ++ " / " ++ if s.bindsScales then size else "span(" ++ extent ++ ")"
  within s ("panLinear(" ++ extent ++ ", " ++ offset ++ ")") size

def translateSignals (ctx : UnitContext) (s : Selection) (signals : List Signal) : List Signal :=
  let events := panEvents s
  let anchor := panAnchor s
  let added : List Signal :=
    [{ name := anchor
       value := some (.obj [])
       handlers :=
         [{ events := .arr (events.map fun b => .str b.startText), update := panStart ctx s }] },
      { name := panDelta s
        value := some (.obj [])
        handlers :=
          [{ events := .arr (events.map fun b => .str b.text)
             update := "\x7bx: " ++ anchor ++ ".x - x(unit), y: " ++ anchor ++
               ".y - y(unit)\x7d" }] }]
  onPositions s (fun c signal => signal.on (.onSignal (panDelta s) (panUpdate s c)))
    (signals ++ added)

def translate : Refinement where
  name := "translate"
  applies := fun s => s.type == "interval" && s.translate.isSome
  signals := translateSignals

def zoomAnchor (s : Selection) : String := s.name ++ "_zoom_anchor"

def zoomDelta (s : Selection) : String := s.name ++ "_zoom_delta"

def zoomEvents (s : Selection) : Json :=
  .arr (s.zoom.toList.map fun stream =>
    .str (if s.bindsScales then stream
      else String.ofList (EventStream.onMark (Brush.markName s).toList stream.toList)))

def zoomStart (ctx : UnitContext) (s : Selection) : String :=
  if s.bindsScales then
    let part := fun (c : Channel) =>
      c.name ++ ": invert(" ++ ctx.quotedScale c ++ ", " ++ c.name ++ "(unit))"
    "\x7b" ++ Text.joined ", " (([Channel.x, .y].filter s.projects).map part) ++ "\x7d"
  else "\x7bx: x(unit), y: y(unit)\x7d"

def zoomUpdate (ctx : UnitContext) (s : Selection) (c : Channel) : String :=
  let base := if s.bindsScales then domainText ctx c else s.visualSignal c
  within s
    ("zoomLinear(" ++ base ++ ", " ++ zoomAnchor s ++ "." ++ c.name ++ ", " ++ zoomDelta s ++ ")")
    (Brush.sizeOf c)

def zoomSignals (ctx : UnitContext) (s : Selection) (signals : List Signal) : List Signal :=
  let added : List Signal :=
    [{ name := zoomAnchor s
       handlers := [{ events := zoomEvents s, update := zoomStart ctx s }] },
      { name := zoomDelta s
        handlers :=
          [{ events := zoomEvents s
             update := "pow(1.001, event.deltaY * pow(16, event.deltaMode))"
             force := true }] }]
  onPositions s (fun c signal => signal.on (.onSignal (zoomDelta s) (zoomUpdate ctx s c)))
    (signals ++ added)

def zoom : Refinement where
  name := "zoom"
  applies := fun s => s.type == "interval" && s.zoom.isSome
  signals := zoomSignals

end Viewflow.Refinement
