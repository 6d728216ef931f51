import Viewflow.Flow.Forest

namespace Viewflow

inductive Failure where
  | unsupportedType (selection type : String)
  -- an entry of a projection names both or neither of a field and an encoding
  | malformedProjection (selection : String) (index : Nat)
  | unknownSelection (name : String)
  | invalidModel (reason : String)
  | fault (fault : Flow.Fault)
deriving DecidableEq, Repr

namespace Failure

def message : Failure → String
  | .unsupportedType selection type =>
    "unsupported selection type `" ++ type ++ "` for selection `" ++ selection ++ "`"
  | .malformedProjection selection index =>
    "selection `" ++ selection ++ "`: projection " ++ toString index ++
      " must set exactly one of `field` or `encoding`"
  | .unknownSelection name => "unknown selection `" ++ name ++ "`"
  | .invalidModel reason => "invalid model: " ++ reason
  | .fault f => f.message

def ofFlow {α : Type} : Except Flow.Fault α → Except Failure α
  | .ok a => .ok a
  | .error f => .error (.fault f)

end Failure
end Viewflow
