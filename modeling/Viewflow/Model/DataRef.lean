import Viewflow.Json.Field
import Viewflow.Text.Basic

namespace Viewflow

structure DataFormat where
  kind : Option String
deriving DecidableEq

inductive DataRef where
  | remote (address : String) (format : Option DataFormat)
  | inline (values : List Json)
  | named (name : String)

namespace DataRef

-- Views whose references have one key share one source.
def key : DataRef → String
  | .remote address _ => "url:" ++ address
  | .inline values => "values:" ++ (Json.arr values).text
  | .named name => "named:" ++ name

def label : DataRef → String
  | .remote address _ => address
  | .inline values => "values(" ++ toString values.length ++ ")"
  | .named name => "named:" ++ name

def same : DataRef → DataRef → Bool
  | .remote a f, .remote b g => a == b && f == g
  | .inline as, .inline bs => Json.sameItems as bs
  | .named a, .named b => a == b
  | _, _ => false

def readFormat : Json.Reader DataFormat := fun v => do
  let r ← Json.asRecord v
  return ⟨← r.optional "type" Json.asString⟩

def readRemote : Json.Reader DataRef := fun v => do
  let r ← Json.asRecord v
  return .remote (← r.required "url" Json.asString) (← r.optional "format" readFormat)

def readInline : Json.Reader DataRef := fun v => do
  let r ← Json.asRecord v
  return .inline (← r.required "values" (Json.asList Json.asVerbatim))

def readNamed : Json.Reader DataRef := fun v => do
  let r ← Json.asRecord v
  return .named (← r.required "name" Json.asString)

def ofDocument? : Json.Reader DataRef := Json.asFirst [readRemote, readInline, readNamed]

end DataRef
end Viewflow
