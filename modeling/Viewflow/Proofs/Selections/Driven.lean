import Viewflow.Proofs.Selections.Brushed
import Viewflow.Proofs.Selections.Listed

namespace Viewflow
open Output (Signal)
open Output.Signal (names)

variable {ctx : UnitContext} {registry : Registry} {config : SelectionConfig} {s : Selection}
  {selections : Selections} {c : Channel} {d : SelectionDef} {name : String} {project : List Projection}

namespace Selection

theorem applies_completed (ctx : UnitContext) (s : Selection) (project : List Projection) :
    Refinement.scales.applies (s.completed ctx project) = Refinement.scales.applies s := by
  unfold completed
  split <;> rfl

theorem project_completed (ctx : UnitContext) (s : Selection) (project : List Projection) :
    (s.completed ctx project).project = project := by
  unfold completed
  split <;> rfl

theorem scales_completed (name : String) (d : SelectionDef) (project : List Projection) :
    ((ofDef name d).completed ctx project).scales =
      if Refinement.scales.applies ((ofDef name d).completed ctx project) = true then
        Refinement.drivenChannels ctx ((ofDef name d).completed ctx project)
      else [] := by
  rw [applies_completed, Refinement.drivenChannels, project_completed]
  unfold completed
  split <;> rfl

end Selection

theorem Refinement.mem_drivenChannels :
    c ∈ drivenChannels ctx s ↔ s.projects c = true ∧ ctx.isContinuous c = true := by
  rw [Selection.projects_iff, drivenChannels, List.mem_filter, List.mem_filterMap]

theorem Refinement.scales_applies : scales.applies s = true ↔
    (s.type = "interval" ∧ s.resolve = .global) ∧ s.bindsScales = true := by
  simp [scales]

-- A selection drives scales only where one change counts for all views, and then those of all channels
-- that it projects on a continuous scale.
theorem Selections.mem_scales_iff (made : ofView ctx registry config = .ok selections)
    (listed : s ∈ selections.values) (interval : s.type = "interval") (bound : s.bindsScales = true) :
    c ∈ s.scales ↔
      s.resolve = .global ∧ s.projects c = true ∧ ctx.isContinuous c = true := by
  obtain ⟨_, e, _, completes⟩ := mem_ofView made listed
  obtain ⟨_, project, _, rfl⟩ := Selection.complete_spec completes
  rw [Selection.scales_completed]
  split
  · next applies =>
    rw [Refinement.mem_drivenChannels, and_iff_right (Refinement.scales_applies.mp applies).1.2]
  · next silent =>
    have other := fun global => silent (Refinement.scales_applies.mpr ⟨⟨interval, global⟩, bound⟩)
    exact iff_of_false (by simp) fun both => other both.1

namespace Brush

-- The channels along which a brush is not drawn, and has a signal for its extent and nothing else.
def bareChannels (s : Selection) : List Channel :=
  if s.bindsScales then (positions s).map Prod.fst else []

theorem mem_bareChannels (bound : s.bindsScales = true) :
    c ∈ bareChannels s ↔ c.isPositional = true ∧ s.projects c = true := by
  rw [bareChannels, if_pos bound, Selection.projects_iff, List.mem_map]
  constructor
  · rintro ⟨⟨c, field⟩, placed, rfl⟩
    obtain ⟨p, listed, same⟩ := List.mem_filterMap.mp placed
    cases p with
    | field _ => cases same
    | encoding d f =>
      obtain ⟨positional, rfl, rfl⟩ : d.isPositional = true ∧ d = c ∧ f = field := by
        simpa using same
      exact ⟨positional, _, listed, rfl⟩
  · rintro ⟨positional, projects⟩
    obtain ⟨field, placed⟩ := exists_position (Selection.projects_iff.mpr projects) positional
    exact ⟨_, placed, rfl⟩

theorem signals_bound (ctx : UnitContext) (bound : s.bindsScales = true) :
    ∃ tuple : Signal, tuple.name = s.tuple ∧
      signals ctx s = (bareChannels s).map (fun c => { name := s.dataSignal c }) ++ [tuple] := by
  unfold signals bareChannels
  rw [if_pos bound]
  split
  · next none =>
    refine ⟨{ name := s.tuple, value := some .null }, rfl, ?_⟩
    rw [List.isEmpty_iff.mp none]
    simp
  · have each : (positions s).flatMap (fun p => channelSignals ctx s p.1) =
        ((positions s).map Prod.fst).map fun c => { name := s.dataSignal c } := by
      rw [List.map_map, ← List.flatMap_pure_eq_map]
      exact congrArg₂ List.flatMap (funext fun p => if_pos bound) rfl
    rw [each, List.append_nil]
    exact ⟨_, rfl, rfl⟩

end Brush

end Viewflow
