import Viewflow.Config
import Viewflow.Selection.Refinement
import Viewflow.Selection.Technique

namespace Viewflow

-- Nothing and `true` both ask for the default.
def flagOrDefault (default : Option String) (flag : Option Json) : Option Json :=
  match flag with
  | none | some (.bool true) => (default.map Json.str) <|> flag
  | other => other

def markOrDefault (default mark : Option Json) : Option Json :=
  match default, mark with
  | some (.obj base), some (.obj own) => some (Json.object (base ++ own))
  | _, _ => mark <|> default

def nonempty {α : Type} (as : List α) : Option (List α) := if as.isEmpty then none else some as

namespace SelectionDef

def projectsItself (d : SelectionDef) : Bool :=
  d.fields.isSome || d.encodings.isSome || d.project.isSome

def withDefaults (d : SelectionDef) (defaults : SelectionDefaults) : SelectionDef :=
  { d with
    on := d.on <|> defaults.on
    resolve := d.resolve <|> some defaults.resolve
    empty := d.empty <|> some defaults.empty
    fields := if d.projectsItself then d.fields else nonempty defaults.fields
    encodings := if d.projectsItself then d.encodings else nonempty defaults.encodings
    toggle := flagOrDefault defaults.toggle d.toggle
    translate := flagOrDefault defaults.translate d.translate
    zoom := flagOrDefault defaults.zoom d.zoom
    nearest := d.nearest <|> some defaults.nearest
    mark := markOrDefault defaults.mark d.mark }

end SelectionDef

-- A flag in force is an expression or event stream; whatever is neither switches it off.
def flagText : Option Json → Option String
  | some (.str s) => some s
  | some (.bool true) => some "true"
  | _ => none

namespace Selection

def ofDef (name : String) (d : SelectionDef) : Selection :=
  { Selection.named name d.type with
    events := d.on.getD .null
    bind := d.bind.map Binding.ofJson
    resolve := d.resolve.getD .global
    empty := d.empty.getD .all
    toggle := flagText d.toggle
    translate := flagText d.translate
    zoom := flagText d.zoom
    nearest := d.nearest.getD false
    mark := d.mark }

def completedBy (ctx : UnitContext) (d : SelectionDef) (s : Selection)
    (refinements : List Refinement) : Except Failure Selection :=
  refinements.foldlM (fun s r => r.complete ctx d s) s

def complete (ctx : UnitContext) (registry : Registry) (config : SelectionConfig) (name : String)
    (d : SelectionDef) : Except Failure Selection := do
  let _ ← registry.lookup name d.type
  let d := match config.defaultsFor? d.type with
    | some defaults => d.withDefaults defaults
    | none => d
  let s := ofDef name d
  s.completedBy ctx d (Refinement.applicable s)

end Selection

namespace Selections

def completeEach (ctx : UnitContext) (registry : Registry) (config : SelectionConfig) :
    List (String × SelectionDef) → Selections → Except Failure Selections
  | [], done => .ok done
  | (name, d) :: rest, done => do
    let s ← Selection.complete ctx registry config name d
    completeEach ctx registry config rest (done.put s.name s)

-- All selections of a view. Two declarations of one safe name leave the later one.
def ofView (ctx : UnitContext) (registry : Registry) (config : SelectionConfig) :
    Except Failure Selections :=
  completeEach ctx registry config ctx.view.selection.entries .empty

end Selections
end Viewflow
