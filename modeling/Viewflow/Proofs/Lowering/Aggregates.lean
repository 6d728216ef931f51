import Viewflow.Proofs.Lowering.Pipelines

namespace Viewflow
open Viewflow.Flow (Measure NamedStep Pipeline Step)

variable {registry : Registry} {index : Index} {v : UnitView} {p : Pipeline} {d : FieldDef} {name : String}

namespace Flow

def Step.isAggregate : Step → Bool
  | .aggregate .. => true
  | _ => false

namespace Pipeline

theorem early_not_aggregate (found : ofView registry index v = .ok p) :
    ∀ s ∈ p.early.map Prod.snd, s.isAggregate = false := by
  intro s member
  obtain ⟨s, listed, rfl⟩ := List.mem_map.mp member
  obtain ⟨_, _, shape⟩ | ⟨_, _, shape⟩ | shape | shape := early_shape found s listed <;>
    rw [shape] <;> rfl

theorem encoded_not_aggregate {ds : List FieldDef} {encoded : List NamedStep}
    (encodes : eachEncodingSteps ds = .ok encoded) : ∀ s ∈ encoded.map Prod.snd, s.isAggregate = false := by
  intro s member
  obtain ⟨s, listed, rfl⟩ := List.mem_map.mp member
  obtain ⟨_, _, _, _, shape⟩ | ⟨_, _, _, shape⟩ := eachEncodingSteps_shape encodes s listed <;>
    rw [shape] <;> rfl

theorem filter_isAggregate (found : ofView registry index v = .ok p) (data : DataRef) :
    (p.steps v data).filter Step.isAggregate = (aggregateSteps v).map Prod.snd := by
  have none : ∀ {steps : List Step}, (∀ s ∈ steps, s.isAggregate = false) →
      steps.filter Step.isAggregate = [] := by
    intro steps quiet
    exact List.filter_eq_nil_iff.mpr fun s member => by simp [quiet s member]
  have early := none (early_not_aggregate found)
  obtain ⟨own, encoded, _, encodes, rfl⟩ := ofView_spec found
  have aggregates : ((aggregateSteps v).map Prod.snd).filter Step.isAggregate =
      (aggregateSteps v).map Prod.snd := by
    obtain ⟨_, absent⟩ | ⟨_, one⟩ := aggregateSteps_cases v
    · simp [absent]
    · simp [one, Step.isAggregate]
  unfold steps
  rw [List.filter_cons_of_neg (by simp [Step.isAggregate]), List.filter_append, List.filter_append, early,
    List.filter_cons_of_neg (by simp [Step.isAggregate, rawStep]), List.map_append, List.filter_append,
    none (encoded_not_aggregate encodes), aggregates]
  simp [Step.isAggregate, mainStep]

theorem mem_groupFields : name ∈ groupFields d ↔ d.aggregate = none ∧ d.field.isSome = true ∧
    (name = d.outputField ∨ d.bin = true ∧ name = binEnd d.outputField) := by
  unfold groupFields
  cases d.aggregate with
  | some op => simp
  | none =>
    cases d.field with
    | none => simp
    | some field => cases d.bin <;> simp

theorem groupField_produced {ds : List FieldDef} (listed : d ∈ ds) (member : name ∈ groupFields d)
    (measures : List Measure) :
    name ∈ (Step.aggregate (ds.flatMap groupFields) measures).produced.toList := by
  apply Distinct.mem_ofList.mpr
  exact List.mem_append_left _ (List.mem_flatMap.mpr ⟨d, listed, member⟩)

theorem measure_produced {ds : List FieldDef} (listed : d ∈ ds) (aggregated : d.aggregate.isSome = true)
    (groupBy : List String) :
    d.outputField ∈ (Step.aggregate groupBy (ds.filterMap measure?)).produced.toList := by
  obtain ⟨op, asked⟩ := Option.isSome_iff_exists.mp aggregated
  have measured : measure? d = some ⟨op, if op = "count" then none else d.field, d.outputField⟩ := by
    simp [measure?, asked]
  apply Distinct.mem_ofList.mpr
  apply List.mem_append_right
  exact List.mem_map.mpr ⟨_, List.mem_filterMap.mpr ⟨d, listed, measured⟩, rfl⟩

end Pipeline
end Flow

end Viewflow
