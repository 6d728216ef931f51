import Viewflow.Failure
import Viewflow.Json.Reader
import Viewflow.Model.Domain
import Viewflow.Output.Transform

namespace Viewflow.SelectionDomain

def placeMark : List Char := "_selection_domain_".toList

-- A scale domain that follows a selection is first written as a signal that only holds its place, and read
-- back once the selections of all views are known.
def placeholder (d : SelectionDomain) : Json :=
  Output.signalReference (String.ofList (placeMark ++ (Json.object d.toFields).text.toList))

def placeText? : Json → Option (List Char)
  | .obj fields =>
    match fields.find? fun f => f.1 = "signal" with
    | some (_, .str s) =>
      if placeMark.isPrefixOf s.toList then some (s.toList.drop placeMark.length) else none
    | _ => none
  | _ => none

def isPlaceholder (v : Json) : Bool := (placeText? v).isSome

def ofPlaceholder (v : Json) : Except Failure SelectionDomain :=
  match placeText? v with
  | none => .error (.invalidModel ("not a selection domain: " ++ v.text))
  | some body =>
    match (Json.Document.ofChars? body).bind SelectionDomain.ofDocument? with
    | some d => .ok d
    | none => .error (.invalidModel "selection domain:")

end Viewflow.SelectionDomain
