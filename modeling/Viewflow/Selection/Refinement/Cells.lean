import Viewflow.Selection.Technique

namespace Viewflow.Refinement
open Output (Mark)

-- Marks that are one path for all their items have no items to click on.
def isPath (mark : String) : Bool := mark == "line" || mark == "area" || mark == "trail"

def cellMark : String := "voronoi"

def contains (part : List Char) : List Char → Bool
  | [] => part.isEmpty
  | c :: rest => part.isPrefixOf (c :: rest) || contains part rest

-- Items are near along the projected positions; without one, along both.
def cellCoordinate (s : Selection) (c : Channel) : String :=
  if s.projects c || !(s.projects .x || s.projects .y) then
    "datum.datum." ++ c.name ++ " || 0"
  else "0"

def expression (text : String) : Json := .obj [("expr", .str text)]

def cellEncode : Json :=
  let value := fun v => Json.obj [("value", v)]
  .obj [("enter", Json.object
    [("fill", value (.str "transparent")),
      ("strokeWidth", value (.num (.floating ⟨false, 6305039478318694, -54⟩))),
      ("stroke", value (.str "transparent")),
      ("isVoronoi", value (.bool true))])]

def cellTransform (s : Selection) : Json :=
  Json.object
    [("type", .str cellMark),
      ("x", expression (cellCoordinate s .x)),
      ("y", expression (cellCoordinate s .y)),
      ("size", .arr [Output.signalReference "width", Output.signalReference "height"])]

def cell (ctx : UnitContext) (s : Selection) (primary : String) : Mark :=
  .mk (ctx.nameOf cellMark) "path" (some primary) false (some cellEncode) [cellTransform s] [] []

def lastIndexOf (name : String) (marks : List Mark) : Nat :=
  ((marks.zipIdx.filter fun m => m.1.name = name).getLast?.map (·.2)).getD 0

-- Marks have cells already when another one says so by its name.
def hasCells (primary : String) (marks : List Mark) : Bool :=
  marks.any fun m => m.name != primary && contains cellMark.toList m.name.toList

def nearestMarks (ctx : UnitContext) (s : Selection) (marks : List Mark) : List Mark :=
  if isPath ctx.view.mark then marks else
  let primary := ctx.nameOf "marks"
  if hasCells primary marks then marks else
  let place := lastIndexOf primary marks + 1
  marks.take place ++ cell ctx s primary :: marks.drop place

def nearest : Refinement where
  name := "nearest"
  applies := Selection.snaps
  marks := nearestMarks

end Viewflow.Refinement
