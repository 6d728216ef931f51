import Viewflow.Operand
import Viewflow.Selection.Basic
import Viewflow.Selection.Domain
import Viewflow.Selection.Technique

namespace Viewflow

structure Instance where
  view : String
  selection : Selection

-- Instances of one name stand in the order of the views.
abbrev Index := Keyed String (List Instance)

namespace Index

def insert (index : Index) (view : String) (s : Selection) : Index :=
  index.put s.name (((index.find? s.name).getD []) ++ [⟨view, s⟩])

def insertAll (index : Index) (view : String) (selections : Selections) : Index :=
  selections.values.foldl (fun index s => index.insert view s) index

def instances (index : Index) (name : String) : List Instance := (index.find? name).getD []

def inView (index : Index) (view : String) : List Selection :=
  (index.values.flatten.filter fun i => i.view == view).map (·.selection)

end Index

namespace Resolution

def scopedTest (test store view : String) : String :=
  test ++ "(" ++ store ++ ", datum, " ++ Text.quote view ++ ")"

-- Of the instances, only the one counts whose view the unit signal names.
def latestTest (test store unit : String) : List Instance → String
  | [] => "false"
  | i :: rest =>
    unit ++ " === " ++ Text.quote i.view ++ " ? (" ++ scopedTest test store i.view ++ ") : " ++
      latestTest test store unit rest

def combinedTests (test store separator : String) (instances : List Instance) : String :=
  match instances with
  | [one] => scopedTest test store one.view
  | several =>
    Text.joined separator
      (several.map fun i => Operand.parenthesized (scopedTest test store i.view))

def mergedTest (test : String) (first : Selection) (instances : List Instance) : String :=
  let store := first.quotedStore
  match first.resolve with
  | .global => test ++ "(" ++ store ++ ", datum)"
  | .union => combinedTests test store " || " instances
  | .intersect => combinedTests test store " && " instances
  | .single => latestTest test store first.unit instances

-- Where an empty selection selects nothing, the store has to hold something.
def guardedTest (first : Selection) (test : String) : String :=
  match first.empty with
  | .all => test
  | .none => "length(data(" ++ first.quotedStore ++ ")) && (" ++ test ++ ")"

def selectionTest (registry : Registry) (index : Index) (name : String) : Except Failure String :=
  let instances := index.instances (Text.identifier name)
  match instances with
  | [] => .error (.unknownSelection name)
  | first :: _ => do
    let technique ← registry.lookup first.selection.name first.selection.type
    return guardedTest first.selection (mergedTest technique.predicate first.selection instances)

def test (registry : Registry) (index : Index) (operand : Operand String) :
    Except Failure String :=
  operand.renderM (selectionTest registry index)

def orNull (text : Option String) : String :=
  match text with
  | some s => Text.quote s
  | none => "null"

-- The field to read: one that is named, or the first that is projected unless a channel is named.
def domainField? (d : SelectionDomain) (s : Selection) : Option String :=
  if d.encoding.isNone && d.field.isNone then s.project.head?.map (·.fieldName) else d.field

def domainText (function : String) (d : SelectionDomain) (s : Selection) : String :=
  let mode := match s.resolve with
    | .global => ""
    | mode => ", " ++ Text.quote mode.name
  function ++ "(" ++ s.quotedStore ++ ", " ++ orNull (d.encoding.map Channel.name) ++ ", " ++
    orNull (domainField? d s) ++ mode ++ ")"

-- The signal that a scale's domain follows. No view drives its own scales.
def domainSignal (registry : Registry) (index : Index) (view : String) (placeholder : Json) :
    Except Failure String := do
  let d ← SelectionDomain.ofPlaceholder placeholder
  let name := Text.identifier d.selection
  if (index.inView view).any fun s => s.name == name then return "null"
  match index.instances name with
  | [] => .error (.unknownSelection d.selection)
  | first :: _ =>
    let technique ← registry.lookup first.selection.name first.selection.type
    return domainText technique.scaleDomain d first.selection

end Resolution
end Viewflow
