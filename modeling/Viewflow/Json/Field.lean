import Viewflow.Json.Document

namespace Viewflow.Json

abbrev Reader (α : Type) := Document → Option α

-- All of the document must be readable, also what the reader would pass over.
def asWhole {α : Type} (read : Reader α) : Reader α := fun d => do
  let _ ← d.value?
  read d

def asValue {α : Type} (read : Json → Option α) : Reader α := fun d => d.value?.bind read

def asVerbatim : Reader Json := asValue fun v => some v.normal

-- A choice between shapes looks at the whole document before the first is tried.
def asFirst {α : Type} (shapes : List (Reader α)) : Reader α :=
  asWhole fun d => shapes.findSome? fun read => read d

def asString : Reader String
  | .str s => some s
  | _ => none

def asBool : Reader Bool
  | .bool b => some b
  | _ => none

def asNatBelow (bound : Nat) : Reader Nat
  | .num (.integer n) => if 0 ≤ n ∧ n < bound then some n.toNat else none
  | _ => none

def asList {α : Type} (read : Reader α) : Reader (List α)
  | .arr items => items.mapM read
  | _ => none

def asNullable {α : Type} (read : Reader α) : Reader (Option α)
  | .null => some none
  | v => (read v).map some

def asPair {α β : Type} (first : Reader α) (second : Reader β) : Reader (α × β)
  | .arr [a, b] => do some (← first a, ← second b)
  | _ => none

-- A name from a closed list. It may also stand as the only key of an object, with nothing to say.
def asName {α : Type} (read : String → Option α) : Reader α
  | .str s => read s
  | .obj [(s, .null)] => read s
  | _ => none

abbrev Record := List (String × Document)

def asRecord : Reader Record
  | .obj fields => some fields
  | _ => none

namespace Record

def once? (r : Record) (key : String) : Option (Option Document) :=
  match r.filter fun field => field.1 = key with
  | [] => some none
  | [(_, v)] => some (some v)
  | _ => none

def required {α : Type} (r : Record) (key : String) (read : Reader α) : Option α := do
  match ← r.once? key with
  | none => none
  | some v => read v

def optional {α : Type} (r : Record) (key : String) (read : Reader α) : Option (Option α) := do
  match ← r.once? key with
  | none => some none
  | some v => asNullable read v

def defaulted {α : Type} (r : Record) (key : String) (default : α) (read : Reader α) : Option α := do
  match ← r.once? key with
  | none => some default
  | some v => read v

end Record
end Viewflow.Json
