import Viewflow.Json.Document
import Viewflow.Json.Token

namespace Viewflow.Json

-- The open containers around the place being read are kept on a stack, innermost first, with what they hold
-- so far, latest first.
inductive Container where
  | array (items : List Document)
  | object (fields : List (Option String × Document)) (key : Option String)

inductive Expected where
  | value (around : List Container)
  | firstItem (around : List Container)
  | firstKey (around : List Container)
  | key (fields : List (Option String × Document)) (around : List Container)
  | colon (fields : List (Option String × Document)) (key : Option String)
    (around : List Container)
  | moreItems (items : List Document) (around : List Container)
  | moreFields (fields : List (Option String × Document)) (around : List Container)
  | nothing (document : Document)

namespace Expected

-- A container that stands in more than this many others is unreadable.
def deepest : Nat := 126

def deliver (d : Document) : List Container → Expected
  | [] => .nothing d
  | .array items :: around => .moreItems (d :: items) around
  | .object fields name :: around => .moreFields ((name, d) :: fields) around

def close (around : List Container) (d : Option Document) : Expected :=
  deliver (if (around.drop deepest).isEmpty then d.getD .unreadable else .unreadable) around

def textOf? (units : List Nat) : Option String := (decode? units).map String.ofList

def namedFields? (fields : List (Option String × Document)) : Option (List (String × Document)) :=
  fields.mapM fun field => do return (← field.1, field.2)

def atValue? (around : List Container) : Token → Option Expected
  | .null => some (deliver .null around)
  | .bool b => some (deliver (.bool b) around)
  | .num l => some (deliver (((Number.ofLiteral? l).map .num).getD .unreadable) around)
  | .str units => some (deliver (((textOf? units).map .str).getD .unreadable) around)
  | .openBracket => some (.firstItem around)
  | .openBrace => some (.firstKey around)
  | _ => none

def step? : Expected → Token → Option Expected
  | .value around, token => atValue? around token
  | .firstItem around, .closeBracket => some (close around (some (.arr [])))
  | .firstItem around, token => atValue? (.array [] :: around) token
  | .firstKey around, .closeBrace => some (close around (some (.obj [])))
  | .firstKey around, .str name => some (.colon [] (textOf? name) around)
  | .key fields around, .str name => some (.colon fields (textOf? name) around)
  | .colon fields name around, .colon => some (.value (.object fields name :: around))
  | .moreItems items around, .comma => some (.value (.array items :: around))
  | .moreItems items around, .closeBracket => some (close around (some (.arr items.reverse)))
  | .moreFields fields around, .comma => some (.key fields around)
  | .moreFields fields around, .closeBrace =>
    some (close around ((namedFields? fields.reverse).map .obj))
  | _, _ => none

def steps? (e : Expected) : List Token → Option Expected
  | [] => some e
  | token :: rest => (e.step? token).bind fun next => steps? next rest

def document? : Expected → Option Document
  | .nothing d => some d
  | _ => none

end Expected

def Document.ofTokens? (tokens : List Token) : Option Document :=
  ((Expected.value []).steps? tokens).bind Expected.document?

def Document.ofChars? (cs : List Char) : Option Document := (tokens? cs).bind ofTokens?

def Document.ofText? (s : String) : Option Document := ofChars? s.toList

def ofText? (s : String) : Option Json := (Document.ofText? s).bind Document.value?

end Viewflow.Json
