import Viewflow.Flow.Lowering
import Viewflow.Proofs.Selections.Listed
import Viewflow.Proofs.Selections.Placeholder

namespace Viewflow

variable {registry : Registry} {index : Index} {known : List String} {name view : String}

def unknown (known : List String) (name : String) : List Failure :=
  if Text.identifier name ∈ known then [] else [.unknownSelection name]

-- The index holds selections of the known names, and of no others, all of registered types.
structure Index.Serves (registry : Registry) (index : Index) (known : List String) : Prop where
  sorted : index.Sorted
  registered : ∀ i, index.Holds i → (registry.find? i.selection.type).isSome = true
  mem_iff : ∀ name, name ∈ known ↔ ∃ i, index.Holds i ∧ i.selection.name = name

theorem Registry.lookup_reports {type : String} (registered : (registry.find? type).isSome = true)
    (selection : String) : Reports (registry.lookup selection type) [] := by
  unfold lookup
  cases found : registry.find? type with
  | none =>
    rw [found] at registered
    cases registered
  | some t => exact .ok t

namespace Index.Serves

variable (serves : index.Serves registry known)
include serves

theorem instances_eq_nil (strange : name ∉ known) : index.instances name = [] := by
  apply List.eq_nil_iff_forall_not_mem.mpr
  intro i member
  exact strange ((serves.mem_iff name).mpr ⟨i, serves.sorted.mem_instances_iff.mp member⟩)

theorem instances_eq_cons (declared : name ∈ known) :
    ∃ first rest, index.instances name = first :: rest ∧
      (registry.find? first.selection.type).isSome = true := by
  obtain ⟨i, held, named⟩ := (serves.mem_iff name).mp declared
  have member := serves.sorted.mem_instances_iff.mpr ⟨held, named⟩
  cases here : index.instances name with
  | nil =>
    rw [here] at member
    cases member
  | cons first rest =>
    have listed : first ∈ index.instances name := here ▸ List.mem_cons_self ..
    exact ⟨first, rest, rfl, serves.registered first (serves.sorted.mem_instances_iff.mp listed).1⟩

theorem selectionTest_reports (name : String) :
    Reports (Resolution.selectionTest registry index name) (unknown known name) := by
  unfold Resolution.selectionTest unknown
  by_cases declared : Text.identifier name ∈ known
  · obtain ⟨first, rest, here, registered⟩ := serves.instances_eq_cons declared
    rw [if_pos declared, here]
    exact (Registry.lookup_reports registered _).then_ok fun t _ => .ok _
  · rw [if_neg declared, serves.instances_eq_nil declared]
    exact rfl

end Index.Serves

section Rendered

variable {α : Type} {expand expand' : α → Except Failure String} {wrongOf : α → List Failure}

mutual

-- Parts are expanded left to right, so that the first leaf that fails is the one reported.
theorem Operand.renderM_reports (each : ∀ a, Reports (expand a) (wrongOf a)) (o : Operand α) :
    Reports (o.renderM expand) (o.leaves.flatMap wrongOf) := by
  cases o with
  | leaf a => simpa [renderM, leaves] using each a
  | not o => exact (renderM_reports each o).then_ok fun _ _ => .ok _
  | allOf os => exact (renderEachM_reports each os).then_ok fun _ _ => .ok _
  | anyOf os => exact (renderEachM_reports each os).then_ok fun _ _ => .ok _

theorem Operand.renderEachM_reports (each : ∀ a, Reports (expand a) (wrongOf a))
    (os : List (Operand α)) :
    Reports (renderEachM expand os) ((leavesOfEach os).flatMap wrongOf) := by
  cases os with
  | nil => exact .ok []
  | cons o os =>
    unfold leavesOfEach renderEachM
    rw [List.flatMap_append]
    exact (renderM_reports each o).bind fun _ _ =>
      (renderEachM_reports each os).then_ok fun _ _ => .ok _

end

mutual

theorem Operand.renderM_yields (each : ∀ a, Yields (expand a) (expand' a)) (o : Operand α) :
    Yields (o.renderM expand) (o.renderM expand') := by
  cases o with
  | leaf a => exact each a
  | not o => exact (renderM_yields each o).then_same
  | allOf os => exact (renderEachM_yields each os).then_same
  | anyOf os => exact (renderEachM_yields each os).then_same

theorem Operand.renderEachM_yields (each : ∀ a, Yields (expand a) (expand' a)) (os : List (Operand α)) :
    Yields (renderEachM expand os) (renderEachM expand' os) := by
  cases os with
  | nil => exact .refl _
  | cons o os => exact (renderM_yields each o).bind fun _ => (renderEachM_yields each os).then_same

end

end Rendered

namespace Index.Serves

variable (serves : index.Serves registry known)
include serves

theorem test_reports (operand : Operand String) :
    Reports (Resolution.test registry index operand) (operand.leaves.flatMap (unknown known)) :=
  Operand.renderM_reports serves.selectionTest_reports operand

-- A view that declares the selection itself needs no instance to be looked up, but there is one.
theorem domainSignal_reports (view : String) (d : SelectionDomain) :
    Reports (Resolution.domainSignal registry index view d.placeholder)
      (unknown known d.selection) := by
  unfold Resolution.domainSignal unknown
  rw [d.ofPlaceholder_placeholder]
  simp only [Flow.Forest.bind_ok]
  split
  · next own =>
    obtain ⟨s, listed, named⟩ := List.any_eq_true.mp own
    obtain ⟨i, member, rfl⟩ := List.mem_map.mp listed
    have held : index.Holds i := (List.mem_filter.mp member).1
    have declared := (serves.mem_iff _).mpr ⟨i, held, eq_of_beq named⟩
    rw [if_pos declared]
    exact .ok _
  · by_cases declared : Text.identifier d.selection ∈ known
    · obtain ⟨first, rest, here, registered⟩ := serves.instances_eq_cons declared
      rw [if_pos declared, here]
      exact (Registry.lookup_reports registered _).then_ok fun t _ => .ok _
    · rw [if_neg declared, serves.instances_eq_nil declared]
      exact rfl

end Index.Serves

def TransformDef.wrong (known : List String) : TransformDef → List Failure
  | .filter (.selection operand) => operand.leaves.flatMap (unknown known)
  | _ => []

def FieldDef.timeUnit? (d : FieldDef) : Option (String × String) :=
  match d.field, d.aggregate, d.bin, d.timeUnit with
  | some field, none, false, some unit => some (field, unit)
  | _, _, _, _ => none

def unknownTimeUnit (field unit : String) : Failure :=
  .invalidModel ("unknown time unit `" ++ unit ++ "` on field `" ++ field ++ "`")

def FieldDef.wrong (d : FieldDef) : List Failure :=
  match d.timeUnit? with
  | some (field, unit) => if TimeUnit.isKnown unit then [] else [unknownTimeUnit field unit]
  | none => []

def UnitView.wrong (known : List String) (v : UnitView) : List Failure :=
  v.transform.flatMap (·.wrong known) ++ v.encoding.values.flatMap (·.wrong)

namespace Flow.Pipeline

theorem encodingSteps_reports (d : FieldDef) : Reports (encodingSteps d) d.wrong := by
  unfold encodingSteps FieldDef.wrong FieldDef.timeUnit?
  cases d.field with
  | none => exact .ok []
  | some field =>
    cases d.aggregate with
    | some _ => exact .ok []
    | none =>
      cases d.bin with
      | true => exact .ok _
      | false =>
        cases d.timeUnit with
        | none => exact .ok []
        | some unit =>
          simp only [Bool.false_eq_true, if_false]
          split
          · exact .ok _
          · exact rfl

theorem eachEncodingSteps_reports (ds : List FieldDef) :
    Reports (eachEncodingSteps ds) (ds.flatMap (·.wrong)) := by
  induction ds with
  | nil => exact .ok []
  | cons d ds ih => exact (encodingSteps_reports d).bind fun _ _ => ih.then_ok fun _ _ => .ok _

variable (serves : index.Serves registry known)
include serves

theorem transformStep_reports (t : TransformDef) :
    Reports (transformStep registry index t) (t.wrong known) := by
  cases t with
  | calculate _ _ => exact .ok _
  | filter filter =>
    cases filter with
    | expression _ => exact .ok _
    | selection operand => exact (serves.test_reports operand).then_ok fun _ _ => .ok _

theorem ofView_reports (v : UnitView) : Reports (ofView registry index v) (v.wrong known) :=
  (Reports.mapM fun t _ => transformStep_reports serves t).bind fun _ _ =>
    (eachEncodingSteps_reports v.encoding.values).then_ok fun _ _ => .ok _

end Flow.Pipeline

namespace Flow.Lowering

theorem addViews_reports (serves : index.Serves registry known) (l : Lowering)
    (views : List UnitView) :
    Reports (l.addViews registry index views) (views.flatMap (·.wrong known)) := by
  induction views generalizing l with
  | nil => exact .ok _
  | cons v views ih =>
    have first : Reports (l.addView registry index v) (v.wrong known) :=
      (Pipeline.ofView_reports serves v).then_ok fun _ _ => .ok _
    exact first.bind fun _ _ => (ih _).then_ok fun _ _ => .ok _

end Flow.Lowering
end Viewflow
