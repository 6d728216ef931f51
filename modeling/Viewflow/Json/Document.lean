import Viewflow.Json.Basic

namespace Viewflow.Json

-- What a JSON text says, before anyone asks for the values in it. A part of a well-formed text may denote
-- no value: a number that is too large, half of a code point, containers too deep in each other. Such a
-- part is no error in itself, only where its value is needed.
inductive Document where
  | null
  | bool (value : Bool)
  | num (value : Number)
  | str (value : String)
  | arr (items : List Document)
  | obj (fields : List (String × Document))
  | unreadable

namespace Document

instance : Inhabited Document := ⟨.null⟩

mutual

def value? : Document → Option Json
  | .null => some .null
  | .bool b => some (.bool b)
  | .num n => some (.num n)
  | .str s => some (.str s)
  | .arr items => (itemValues? items).map .arr
  | .obj fields => (fieldValues? fields).map .obj
  | .unreadable => none

def itemValues? : List Document → Option (List Json)
  | [] => some []
  | item :: rest => do
    let v ← item.value?
    let vs ← itemValues? rest
    return v :: vs

def fieldValues? : List (String × Document) → Option (List (String × Json))
  | [] => some []
  | (key, part) :: rest => do
    let v ← part.value?
    let vs ← fieldValues? rest
    return (key, v) :: vs

end

mutual

def ofValue : Json → Document
  | .null => .null
  | .bool b => .bool b
  | .num n => .num n
  | .str s => .str s
  | .arr items => .arr (ofItems items)
  | .obj fields => .obj (ofFields fields)

def ofItems : List Json → List Document
  | [] => []
  | item :: rest => ofValue item :: ofItems rest

def ofFields : List (String × Json) → List (String × Document)
  | [] => []
  | (key, value) :: rest => (key, ofValue value) :: ofFields rest

end

mutual

theorem value?_ofValue (v : Json) : (ofValue v).value? = some v := by
  cases v <;> simp [ofValue, value?, itemValues?_ofItems, fieldValues?_ofFields]

theorem itemValues?_ofItems (items : List Json) : itemValues? (ofItems items) = some items := by
  cases items with
  | nil => rfl
  | cons item rest =>
    simp [ofItems, itemValues?, value?_ofValue item, itemValues?_ofItems rest]

theorem fieldValues?_ofFields (fields : List (String × Json)) :
    fieldValues? (ofFields fields) = some fields := by
  match fields with
  | [] => rfl
  | (key, value) :: rest =>
    simp [ofFields, fieldValues?, value?_ofValue value, fieldValues?_ofFields rest]

end

end Document
end Viewflow.Json
