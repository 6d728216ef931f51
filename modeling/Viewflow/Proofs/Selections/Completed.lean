import Viewflow.Proofs.Failures.Reports
import Viewflow.Proofs.Lowering.Pipelines
import Viewflow.Proofs.Text.Identifiers
import Viewflow.Selection.Completion

namespace Viewflow

variable {ctx : UnitContext} {registry : Registry} {config : SelectionConfig} {name type : String}
  {d : SelectionDef} {s : Selection}

def ProjectDef.isProper (p : ProjectDef) : Bool := p.field.isSome != p.encoding.isSome

namespace SelectionDef

def filledIn (d : SelectionDef) (config : SelectionConfig) : SelectionDef :=
  match config.defaultsFor? d.type with
  | some defaults => d.withDefaults defaults
  | none => d

theorem filledIn_spec (d : SelectionDef) (config : SelectionConfig) :
    (d.filledIn config).type = d.type ∧ (d.filledIn config).project = d.project := by
  unfold filledIn
  split <;> exact ⟨rfl, rfl⟩

def malformedAt? (d : SelectionDef) : Option Nat :=
  (d.project.getD []).findIdx? fun p => !p.isProper

-- An unknown type is reported before anything else about a definition.
def wrong (registry : Registry) (name : String) (d : SelectionDef) : List Failure :=
  if (registry.find? d.type).isNone then [.unsupportedType name d.type]
  else (d.malformedAt?.map (.malformedProjection (Text.identifier name))).toList

theorem wrong_eq_nil_iff :
    d.wrong registry name = [] ↔
      (registry.find? d.type).isSome = true ∧ ∀ p ∈ d.project.getD [], p.isProper = true := by
  unfold wrong malformedAt?
  cases registry.find? d.type with
  | none => simp
  | some t => simp [List.findIdx?_eq_none_iff]

end SelectionDef

namespace Refinement

theorem ofDeclared?_isSome (p : ProjectDef) : (ofDeclared? ctx p).isSome = p.isProper := by
  obtain ⟨field, encoding⟩ := p
  cases field <;> cases encoding <;> rfl

theorem ofEntries_reports (selection : String) (place : Nat) (entries : List ProjectDef) :
    Reports (ofEntries ctx selection place entries)
      ((entries.findIdx? fun p => !p.isProper).map fun i =>
        Failure.malformedProjection selection (place + i)).toList := by
  induction entries generalizing place with
  | nil => exact .ok []
  | cons p entries ih =>
    have declared : (ofDeclared? ctx p).isSome = p.isProper := ofDeclared?_isSome p
    unfold ofEntries
    rw [List.findIdx?_cons]
    cases read : ofDeclared? ctx p with
    | none =>
      rw [read] at declared
      simp only [← declared, Option.isSome_none, Bool.not_false, if_true, Option.map_some]
      exact rfl
    | some found =>
      rw [read] at declared
      have rest : Reports (ofEntries ctx selection (place + 1) entries >>= fun more =>
          .ok (found ++ more)) _ := (ih (place + 1)).then_ok fun _ _ => .ok _
      simp only [← declared, Option.isSome_some, Bool.not_true, Bool.false_eq_true, if_false,
        Option.map_map]
      have shifted : ∀ i, place + 1 + i = place + (i + 1) := by omega
      simp only [shifted] at rest
      exact rest

theorem projections_reports (d : SelectionDef) (selection : String) :
    Reports (projections ctx d selection)
      (d.malformedAt?.map (.malformedProjection selection)).toList := by
  unfold projections SelectionDef.malformedAt?
  cases d.project with
  | none => exact .ok _
  | some entries =>
    have reports : Reports (ofEntries ctx selection 0 entries) _ :=
      ofEntries_reports selection 0 entries
    simpa using reports

end Refinement

namespace Selection
open Flow.Forest (bind_ok)
open Refinement (projections channelFields drivenChannels)

def projecting (s : Selection) (project : List Projection) : Selection :=
  { s with project, fields := channelFields project }

def completed (ctx : UnitContext) (s : Selection) (project : List Projection) : Selection :=
  if Refinement.scales.applies s then
    { s.projecting project with scales := drivenChannels ctx (s.projecting project) }
  else s.projecting project

theorem foldlM_silent {refinements : List Refinement} (applies : Refinement → Bool)
    (silent : ∀ r ∈ refinements, ∀ s, r.complete ctx d s = .ok s) (s : Selection) :
    refinements.foldlM (fun s r => if applies r = true then r.complete ctx d s else pure s) s =
      .ok s := by
  induction refinements with
  | nil => rfl
  | cons r refinements ih =>
    have first : (if applies r = true then r.complete ctx d s else pure s) = .ok s := by
      split
      · exact silent r (List.mem_cons_self ..) s
      · rfl
    rw [List.foldlM_cons, first]
    exact ih fun r member => silent r (List.mem_cons_of_mem _ member)

-- Only the projection and the driven scales say anything, and only the first can fail.
theorem completedBy_applicable (ctx : UnitContext) (d : SelectionDef) (s : Selection) :
    s.completedBy ctx d (Refinement.applicable s) =
      (projections ctx d s.name).map (completed ctx s) := by
  unfold completedBy Refinement.applicable
  rw [List.foldlM_filter]
  unfold Refinement.all
  rw [List.foldlM_cons]
  cases found : projections ctx d s.name with
  | error e =>
    simp only [Refinement.project, if_true, Refinement.completeProject, found]
    rfl
  | ok project =>
    have projects : (if Refinement.project.applies s = true then
        Refinement.project.complete ctx d s else pure s) = .ok (s.projecting project) := by
      simp only [Refinement.project, if_true, Refinement.completeProject, found]
      rfl
    have toggles : (if Refinement.toggle.applies s = true then
        Refinement.toggle.complete ctx d (s.projecting project) else
          pure (s.projecting project)) = .ok (s.projecting project) := by
      split <;> rfl
    have drives : (if Refinement.scales.applies s = true then
        Refinement.scales.complete ctx d (s.projecting project) else
          pure (s.projecting project)) = .ok (s.completed ctx project) := by
      unfold completed
      split <;> rfl
    rw [projects, bind_ok, List.foldlM_cons, toggles, bind_ok, List.foldlM_cons, drives, bind_ok]
    refine foldlM_silent (fun r => r.applies s) ?_ _
    simp [Refinement.translate, Refinement.zoom, Refinement.inputs, Refinement.nearest,
      Refinement.latest]

theorem complete_eq :
    complete ctx registry config name d = (do
      let _ ← registry.lookup name d.type
      let s := ofDef name (d.filledIn config)
      (projections ctx (d.filledIn config) s.name).map (s.completed ctx)) := by
  unfold complete
  simp only [completedBy_applicable]
  rfl

theorem complete_reports :
    Reports (complete ctx registry config name d) (d.wrong registry name) := by
  obtain ⟨_, project⟩ := d.filledIn_spec config
  rw [complete_eq, SelectionDef.wrong, Registry.lookup]
  cases registry.find? d.type with
  | none => exact rfl
  | some t =>
    have reports : Reports (projections ctx (d.filledIn config) (ofDef name (d.filledIn config)).name) _ :=
      Refinement.projections_reports (d.filledIn config) (ofDef name (d.filledIn config)).name
    rw [SelectionDef.malformedAt?, project] at reports
    exact reports.then_ok fun project _ => .ok _

theorem complete_spec (done : complete ctx registry config name d = .ok s) :
    (registry.find? d.type).isSome = true ∧ ∃ project,
      projections ctx (d.filledIn config) (Text.identifier name) = .ok project ∧
      s = (ofDef name (d.filledIn config)).completed ctx project := by
  rw [complete_eq] at done
  obtain ⟨t, known, done⟩ := bind_eq_ok done
  unfold Registry.lookup at known
  cases found : registry.find? d.type with
  | none =>
    rw [found] at known
    cases known
  | some _ =>
    refine ⟨rfl, ?_⟩
    simp only [Except.map] at done
    split at done
    · cases done
    · next project projected =>
      cases done
      exact ⟨project, projected, rfl⟩

theorem completed_name (ctx : UnitContext) (s : Selection) (project : List Projection) :
    (s.completed ctx project).name = s.name := by
  unfold completed
  split <;> rfl

theorem completed_type (ctx : UnitContext) (s : Selection) (project : List Projection) :
    (s.completed ctx project).type = s.type := by
  unfold completed
  split <;> rfl

theorem complete_name (done : complete ctx registry config name d = .ok s) :
    s.name = Text.identifier name := by
  obtain ⟨_, project, _, rfl⟩ := complete_spec done
  exact completed_name ..

theorem complete_type (done : complete ctx registry config name d = .ok s) : s.type = d.type := by
  obtain ⟨_, project, _, rfl⟩ := complete_spec done
  exact (completed_type ..).trans (d.filledIn_spec config).1

end Selection
end Viewflow
