import Viewflow.Json.Number
import Viewflow.Text.Basic

namespace Viewflow

inductive Json where
  | null
  | bool (value : Bool)
  | num (value : Json.Number)
  | str (value : String)
  | arr (items : List Json)
  | obj (fields : List (String × Json))

namespace Json

instance : Inhabited Json := ⟨.null⟩

def ofNat (n : Nat) : Json := .num (.integer n)

def insertField {α : Type} (key : String) (value : α) : List (String × α) → List (String × α)
  | [] => [(key, value)]
  | (k, v) :: rest =>
    if k = key then (key, value) :: rest
    else if key < k then (key, value) :: (k, v) :: rest
    else (k, v) :: insertField key value rest

def sortFields {α : Type} (fields : List (String × α)) : List (String × α) :=
  fields.foldl (fun sorted field => insertField field.1 field.2 sorted) []

mutual

-- The fields of an object stand as they were written. The normal form has them sorted by key, the last of
-- equal keys winning.
def normal : Json → Json
  | .arr items => .arr (normalItems items)
  | .obj fields => .obj (sortFields (normalFields fields))
  | other => other

def normalItems : List Json → List Json
  | [] => []
  | item :: rest => item.normal :: normalItems rest

def normalFields : List (String × Json) → List (String × Json)
  | [] => []
  | (key, value) :: rest => (key, value.normal) :: normalFields rest

end

def object (fields : List (String × Json)) : Json := .obj (sortFields fields)

mutual

def same : Json → Json → Bool
  | .null, .null => true
  | .bool a, .bool b => a == b
  | .num a, .num b => a.same b
  | .str a, .str b => a == b
  | .arr as, .arr bs => sameItems as bs
  | .obj as, .obj bs => sameFields as bs
  | _, _ => false

def sameItems : List Json → List Json → Bool
  | [], [] => true
  | a :: as, b :: bs => a.same b && sameItems as bs
  | _, _ => false

def sameFields : List (String × Json) → List (String × Json) → Bool
  | [], [] => true
  | (k, a) :: as, (l, b) :: bs => k == l && a.same b && sameFields as bs
  | _, _ => false

end

instance : BEq Json := ⟨same⟩

mutual

def text : Json → String
  | .null => "null"
  | .bool true => "true"
  | .bool false => "false"
  | .num n => n.text
  | .str s => Text.quote s
  | .arr items => "[" ++ itemsText items ++ "]"
  | .obj fields => "\x7b" ++ fieldsText fields ++ "\x7d"

def itemsText : List Json → String
  | [] => ""
  | item :: rest => item.text ++ moreItemsText rest

def moreItemsText : List Json → String
  | [] => ""
  | item :: rest => "," ++ item.text ++ moreItemsText rest

def fieldsText : List (String × Json) → String
  | [] => ""
  | (key, value) :: rest => Text.quote key ++ ":" ++ value.text ++ moreFieldsText rest

def moreFieldsText : List (String × Json) → String
  | [] => ""
  | (key, value) :: rest =>
    "," ++ Text.quote key ++ ":" ++ value.text ++ moreFieldsText rest

end

-- The key that stands for a value: numbers and texts are their own, all else is its written form.
def key : Json → Json
  | .num n => .num n
  | .str s => .str s
  | value => .str value.text

end Json
end Viewflow
