import Viewflow.Selection.EventStream
import Viewflow.Selection.Point

namespace Viewflow.Brush
open EventStream (Between)
open Output (Handler Mark Signal)

def markName (s : Selection) : String := s.name ++ "_brush"

def scaleTrigger (s : Selection) : String := s.name ++ "_scale_trigger"

def positions (s : Selection) : List (Channel × String) :=
  s.project.filterMap fun p =>
    match p with
    | .encoding c field => if c.isPositional then some (c, field) else none
    | .field _ => none

def pair (first second : String) : String := "[" ++ first ++ ", " ++ second ++ "]"

def offBrush? (s : Selection) : Option String :=
  s.translate.map fun _ =>
    "!event.item || event.item.mark.name !== " ++ Text.quote (markName s)

def sizeOf (c : Channel) : String := c.sizeSignal?.getD "width"

def dragHandlers (s : Selection) (c : Channel) (b : Between) : List Handler :=
  let b := match offBrush? s with
    | some condition => b.filterStart condition.toList
    | none => b
  let coordinate := c.name ++ "(unit)"
  [{ events := .str b.startText, update := pair coordinate coordinate },
    { events := .str b.text
      update := pair (s.visualSignal c ++ "[0]")
        ("clamp(" ++ coordinate ++ ", 0, " ++ sizeOf c ++ ")") }]

-- A continuous scale takes the brush along when it changes; any other change clears the brush.
def rescaled (ctx : UnitContext) (s : Selection) (c : Channel) : String :=
  if ctx.isContinuous c then
    let ends := fun place =>
      "scale(" ++ ctx.quotedScale c ++ ", " ++ s.dataSignal c ++ place ++ ")"
    pair (ends "[0]") (ends "[1]")
  else "[0, 0]"

-- Each projected channel has a visual signal with the extent in pixels and a data signal with the extent
-- on its scale. A selection that drives the scales reads its extent from them and draws nothing.
def channelSignals (ctx : UnitContext) (s : Selection) (c : Channel) : List Signal :=
  if s.bindsScales then [{ name := s.dataSignal c }] else
  let visual := s.visualSignal c
  let betweens := (EventStream.streams s.events).filterMap fun stream =>
    Between.read? stream.toList
  [{ name := visual
     value := some (.arr [])
     handlers := betweens.flatMap (dragHandlers s c) ++
       [.onSignal (scaleTrigger s) (rescaled ctx s c)] },
    { name := s.dataSignal c
      handlers := [.onSignal visual
        (visual ++ "[0] === " ++ visual ++ "[1] ? null : invert(" ++ ctx.quotedScale c ++ ", " ++
          visual ++ ")")] }]

def intervalText (s : Selection) (c : Channel) (field : String) : String :=
  "\x7bencoding: " ++ Text.quote c.name ++ ", field: " ++ Text.quote field ++ ", extent: " ++
    s.dataSignal c ++ "\x7d"

def scaleTest (ctx : UnitContext) (s : Selection) (c : Channel) : String :=
  let data := s.dataSignal c
  let number := if ctx.isContinuous c then "+" else ""
  let agrees := fun place =>
    number ++ "invert(" ++ ctx.quotedScale c ++ ", " ++ s.visualSignal c ++ ")" ++ place ++
      " === " ++ number ++ data ++ place
  "(!isArray(" ++ data ++ ") || (" ++ agrees "[0]" ++ " && " ++ agrees "[1]" ++ "))"

def tupleUpdate (ctx : UnitContext) (s : Selection) : String :=
  Text.joined " && " ((positions s).map fun p => s.dataSignal p.1) ++ " ? \x7bunit: " ++
    ctx.quotedUnit ++ ", intervals: [" ++
    Text.joined ", " ((positions s).map fun p => intervalText s p.1 p.2) ++ "]\x7d : null"

def triggerUpdate (ctx : UnitContext) (s : Selection) : String :=
  Text.joined " && " ((positions s).map fun p => scaleTest ctx s p.1) ++ " ? " ++ scaleTrigger s ++
    " : \x7b\x7d"

def signals (ctx : UnitContext) (s : Selection) : List Signal :=
  if (positions s).isEmpty then
    (if s.bindsScales then [] else [{ name := scaleTrigger s, value := some (.obj []) }]) ++
      [{ name := s.tuple, value := some .null }]
  else
    (positions s).flatMap (fun p => channelSignals ctx s p.1) ++
      (if s.bindsScales then []
        else [{ name := scaleTrigger s, update := some (triggerUpdate ctx s) }]) ++
      [{ name := s.tuple
         handlers :=
          [{ events := .arr ((positions s).map fun p => Output.signalReference (s.dataSignal p.1))
             update := tupleUpdate ctx s }] }]

def edge (s : Selection) (c : Channel) (place : String) (otherwise : List (String × Json)) :
    List (String × Json) :=
  if s.projects c then [("signal", .str (s.name ++ "_" ++ c.name ++ place))] else otherwise

def viewSize (side : String) : List (String × Json) :=
  [("field", .obj [("group", .str side)])]

def atZero : List (String × Json) := [("value", Json.ofNat 0)]

-- A global store holds one interval, so that the brush shows only in the view it was drawn in.
def shownEdge (ctx : UnitContext) (s : Selection) (rule : List (String × Json)) : Json :=
  match s.resolve with
  | .global =>
    let store := "data(" ++ s.quotedStore ++ ")"
    let test := store ++ ".length && " ++ store ++ "[0].unit === " ++ ctx.quotedUnit
    .arr [Json.object (("test", .str test) :: rule), .obj atZero]
  | _ => .obj rule

def edges (ctx : UnitContext) (s : Selection) : List (String × Json) :=
  [("x", shownEdge ctx s (edge s .x "[0]" atZero)),
    ("y", shownEdge ctx s (edge s .y "[0]" atZero)),
    ("x2", shownEdge ctx s (edge s .x "[1]" (viewSize "width"))),
    ("y2", shownEdge ctx s (edge s .y "[1]" (viewSize "height")))]

def style (s : Selection) : List (String × Json) :=
  match s.mark with
  | some (.obj fields) => fields
  | _ => []

def styleValue (s : Selection) (name : String) : Json :=
  (Keyed.ofList (style s)).find? name |>.getD .null

def strokeTest (s : Selection) : String :=
  let differs := fun (c : Channel) =>
    let signal := s.name ++ "_" ++ c.name
    if s.projects c then [signal ++ "[0] !== " ++ signal ++ "[1]"] else []
  Text.joined " && " (differs .x ++ differs .y)

def strokes (s : Selection) : List (String × Json) :=
  ((style s).filter fun f => f.1 != "fill" && f.1 != "fillOpacity").map fun f =>
    (f.1, .arr [.obj [("test", .str (strokeTest s)), ("value", f.2)], .obj [("value", .null)]])

def valueField (v : Json) : Json := .obj [("value", v)]

def clipped (name : String) (enter update : List (String × Json)) : Mark :=
  .mk name "rect" none true
    (some (.obj [("enter", Json.object enter), ("update", Json.object update)])) [] [] []

-- The view's marks stand between the background of the brush and a foreground that can be dragged.
def marks (ctx : UnitContext) (s : Selection) (marks : List Mark) : List Mark :=
  if s.bindsScales then marks else
  let background := clipped (markName s ++ "_bg")
    [("fill", valueField (styleValue s "fill")),
      ("fillOpacity", valueField (styleValue s "fillOpacity"))]
    (edges ctx s)
  let foreground := clipped (markName s) [("fill", valueField (.str "transparent"))]
    (edges ctx s ++ strokes s)
  background :: marks ++ [foreground]

def interval : Technique where
  signals := signals
  modifyArguments := fun ctx s => s.tuple ++ ", " ++ Point.removal ctx s "true"
  predicate := "vlInterval"
  scaleDomain := "vlIntervalDomain"
  marks := marks

end Viewflow.Brush

namespace Viewflow.Registry

def builtIn : Registry :=
  .ofList [("single", Point.single), ("multi", Point.multi), ("interval", Brush.interval)]

end Viewflow.Registry
