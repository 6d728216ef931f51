import Viewflow.Flow.Walk

namespace Viewflow.Flow

def Measure.sketch (m : Measure) : String :=
  m.op ++ "(" ++ m.field.getD "*" ++ ") -> " ++ m.into

def Boundary.sketch (demand : Option Demand) (b : Boundary) : String :=
  "output " ++ b.name ++ (if b.source = b.name then "" else " => " ++ b.source) ++
    match demand with
    | some d => " (" ++ toString (d.count b.name) ++ ")"
    | none => ""

def Step.sketch (demand : Option Demand) : Step → String
  | .source data => "source " ++ data.label
  | .parse fields =>
    "parse " ++ Text.joined ", " (fields.entries.map fun e => e.1 ++ ":" ++ e.2.name)
  | .formula expression into => "formula " ++ into ++ " = " ++ expression
  | .filter expression _ => "filter " ++ expression
  | .bin field start stop _ => "bin " ++ field ++ " -> " ++ start ++ ", " ++ stop
  | .timeUnit field unit into => "timeunit " ++ unit ++ "(" ++ field ++ ") -> " ++ into
  | .aggregate groupBy measures =>
    "aggregate [" ++ Text.joined ", " groupBy ++ "] " ++
      Text.joined ", " (measures.map Measure.sketch)
  | .identifier => "identifier"
  | .output b => b.sketch demand

namespace Tree

def indent : Nat → String
  | 0 => ""
  | depth + 1 => "  " ++ indent depth

mutual

def sketch (demand : Option Demand) (depth : Nat) : Tree → String
  | .node id step children =>
    indent depth ++ id.label ++ " " ++ step.sketch demand ++ "\n" ++
      sketchEach demand (depth + 1) children

def sketchEach (demand : Option Demand) (depth : Nat) : List Tree → String
  | [] => ""
  | t :: rest => t.sketch demand depth ++ sketchEach demand depth rest

end

end Tree

def Forest.sketch (f : Forest) (demand : Option Demand) : String :=
  Tree.sketchEach demand 0 f.trees

end Viewflow.Flow
