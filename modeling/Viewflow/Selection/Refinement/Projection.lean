import Viewflow.Selection.Technique

namespace Viewflow.Refinement

def ofChannel (ctx : UnitContext) (c : Channel) : List Projection :=
  match (ctx.view.fieldDef? c).bind (·.field) with
  | some field => [.encoding c field]
  | none => []

def ofDeclared? (ctx : UnitContext) (entry : ProjectDef) : Option (List Projection) :=
  match entry.field, entry.encoding with
  | some field, none => some [.field field]
  | none, some c => some (ofChannel ctx c)
  | _, _ => none

-- The first entry that is not well formed is reported by its place.
def ofEntries (ctx : UnitContext) (selection : String) (place : Nat) :
    List ProjectDef → Except Failure (List Projection)
  | [] => .ok []
  | entry :: rest =>
    match ofDeclared? ctx entry with
    | none => .error (.malformedProjection selection place)
    | some found => do return found ++ (← ofEntries ctx selection (place + 1) rest)

-- An explicit list says everything; without it, fields come before encodings.
def projections (ctx : UnitContext) (d : SelectionDef) (selection : String) :
    Except Failure (List Projection) :=
  match d.project with
  | some entries => ofEntries ctx selection 0 entries
  | none =>
    .ok ((d.fields.getD []).map .field ++ (d.encodings.getD []).flatMap (ofChannel ctx))

def channelFields (project : List Projection) : Keyed Channel String :=
  .ofList (project.filterMap fun p => p.channel?.map fun c => (c, p.fieldName))

def completeProject (ctx : UnitContext) (d : SelectionDef) (s : Selection) :
    Except Failure Selection := do
  let project ← projections ctx d s.name
  return { s with project, fields := channelFields project }

def project : Refinement where
  name := "project"
  applies := fun _ => true
  complete := completeProject

end Viewflow.Refinement
