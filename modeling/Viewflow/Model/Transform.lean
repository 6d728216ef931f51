import Viewflow.Json.Field
import Viewflow.Operand

namespace Viewflow

inductive FilterDef where
  | selection (operand : Operand String)
  | expression (text : String)

inductive TransformDef where
  | calculate (expression into : String)
  | filter (filter : FilterDef)

def FilterDef.ofDocument? : Json.Reader FilterDef
  | .str s => some (.expression s)
  | v => do
    let r ← Json.asRecord v
    return .selection (← r.required "selection" (Json.asValue Operand.ofJson?))

namespace TransformDef

def readCalculate : Json.Reader TransformDef := fun v => do
  let r ← Json.asRecord v
  return .calculate (← r.required "calculate" Json.asString) (← r.required "as" Json.asString)

def readFilter : Json.Reader TransformDef := fun v => do
  let r ← Json.asRecord v
  return .filter (← r.required "filter" FilterDef.ofDocument?)

def ofDocument? : Json.Reader TransformDef := Json.asFirst [readCalculate, readFilter]

end TransformDef
end Viewflow
