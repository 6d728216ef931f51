namespace Viewflow

inductive Channel where
  | x | y | x2 | y2 | row | column | color | opacity | size | shape | text | tooltip | href | detail
  | key | order
deriving DecidableEq, Repr, Inhabited

namespace Channel

def all : List Channel :=
  [.x, .y, .x2, .y2, .row, .column, .color, .opacity, .size, .shape, .text, .tooltip, .href,
    .detail, .key, .order]

def name : Channel → String
  | .x => "x"
  | .y => "y"
  | .x2 => "x2"
  | .y2 => "y2"
  | .row => "row"
  | .column => "column"
  | .color => "color"
  | .opacity => "opacity"
  | .size => "size"
  | .shape => "shape"
  | .text => "text"
  | .tooltip => "tooltip"
  | .href => "href"
  | .detail => "detail"
  | .key => "key"
  | .order => "order"

def ofName? (s : String) : Option Channel := all.find? fun c => c.name == s

theorem ofName?_name (c : Channel) : ofName? c.name = some c := by cases c <;> rfl

def unknownMessage (s : String) : String := "unknown channel: " ++ s

-- A second position shares the scale of the first and has none of its own.
def ownsScale : Channel → Bool
  | .x | .y | .color | .opacity | .size | .shape => true
  | _ => false

def isPositional : Channel → Bool
  | .x | .y => true
  | _ => false

def sizeSignal? : Channel → Option String
  | .x => some "width"
  | .y => some "height"
  | _ => none

end Channel
end Viewflow
