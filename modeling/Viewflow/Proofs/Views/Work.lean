import Viewflow.Proofs.Lowering.Aggregates
import Viewflow.Proofs.Passes.Coerced
import Viewflow.Proofs.Text.Identifiers
import Viewflow.Proofs.Views.Declared
import Viewflow.Proofs.Views.Recipe

namespace Viewflow
open Viewflow.Flow (Coercion Lowering NamedStep Pipeline)
open Output (Origin Recipe Transform)

variable {registry : Registry} {index : Index} {v : UnitView} {d : FieldDef} {field : String}
  {c : Coercion} {own encoded : List NamedStep}

-- What a transform of a view does to the view's data. A filter by selections keeps what their test keeps.
inductive TransformDef.Does (registry : Registry) (index : Index) : TransformDef → Transform → Prop where
  | calculate (expression into : String) :
      Does registry index (.calculate expression into) (.formula expression into)
  | expression (text : String) : Does registry index (.filter (.expression text)) (.filter text)
  | selection {operand : Operand String} {text : String} :
      Resolution.test registry index operand = .ok text →
      Does registry index (.filter (.selection operand)) (.filter text)

theorem TransformDef.Does.unique {t : TransformDef} {one two : Transform} (does : Does registry index t one)
    (does' : Does registry index t two) : one = two := by
  cases does with
  | calculate _ _ | expression _ =>
    cases does'
    rfl
  | selection tested =>
    cases does' with
    | selection tested' =>
      cases tested.symm.trans tested'
      rfl

namespace FieldDef

-- What an encoding does to single rows. Bins come before time units, and an aggregated field is as it was.
inductive Does (d : FieldDef) : List Transform → Prop where
  | bins (field : String) : d.field = some field → d.aggregate = none → d.bin = true →
      d.Does [.extent field (binField field ++ "_extent"),
        .bin field (binField field) (binEnd (binField field)) (binField field ++ "_bins")
          (binField field ++ "_extent") defaultMaxBins]
  | truncates (field unit : String) : d.field = some field → d.aggregate = none → d.bin = false →
      d.timeUnit = some unit →
      d.Does [.formula (TimeUnit.expression unit field) (Text.identifier (unit ++ "_" ++ field))]
  | nothing : d.field = none ∨ d.aggregate.isSome = true ∨ d.bin = false ∧ d.timeUnit = none → d.Does []

theorem Does.unique {one two : List Transform} (does : d.Does one) (does' : d.Does two) : one = two := by
  cases does <;> cases does' <;> simp_all

def groupColumns (d : FieldDef) : List String :=
  if d.bin then [d.outputField, binEnd d.outputField] else [d.outputField]

def summarizedField (d : FieldDef) : Option String := if d.aggregate = some "count" then none else d.field

end FieldDef

namespace UnitView

def grouping (v : UnitView) : List FieldDef :=
  v.encoding.values.filter fun d => d.field.isSome && d.aggregate.isNone

def summarized (v : UnitView) : List FieldDef := v.encoding.values.filter fun d => d.aggregate.isSome

inductive Summarizes (v : UnitView) : List Transform → Prop where
  | nothing : (∀ d ∈ v.encoding.values, d.aggregate = none) → v.Summarizes []
  | aggregate {d : FieldDef} : d ∈ v.encoding.values → d.aggregate.isSome = true →
      v.Summarizes [.aggregate (v.grouping.flatMap (·.groupColumns)) (v.summarized.filterMap (·.aggregate))
        (v.summarized.map (·.summarizedField)) (v.summarized.map (·.outputField))]

theorem Summarizes.unique {one two : List Transform} (does : v.Summarizes one) (does' : v.Summarizes two) :
    one = two := by
  cases does with
  | nothing none =>
    cases does' with
    | nothing _ => rfl
    | aggregate listed some => simp [none _ listed] at some
  | aggregate listed some =>
    cases does' with
    | nothing none => simp [none _ listed] at some
    | aggregate _ _ => rfl

-- An encoding types its field by its own type, unless the view computes the field or only counts.
structure Types (v : UnitView) (d : FieldDef) (field : String) (c : Coercion) : Prop where
  bound : d.field = some field
  loaded : ∀ expression, .calculate expression field ∉ v.transform
  read : d.aggregate ≠ some "count"
  type : d.type = .quantitative ∧ c = .number ∨ d.type = .temporal ∧ c = .date

-- The first encoding that types a field decides.
def Coerces (v : UnitView) (field : String) (c : Coercion) : Prop :=
  ∃ before d after, v.encoding.values = before ++ d :: after ∧ v.Types d field c ∧
    ∀ e ∈ before, ∀ c', ¬ v.Types e field c'

end UnitView

namespace DataRef

def origin : DataRef → Origin
  | .remote address _ => .remote address
  | .inline values => .inline values
  | .named name => .derived name

def kind? : DataRef → Option String
  | .remote _ format => format.bind (·.kind)
  | _ => none

def coercionFormula (entry : String × Coercion) : Transform :=
  .formula (entry.2.function ++ "(" ++ Text.AccessPath.guarded entry.1 "datum" ++ ")") entry.1

-- The data with its fields coerced, put through a view's own transforms and then through others. Where
-- coercions are done while the file loads, nothing comes before them; otherwise they are formulas, and where
-- they have climbed they come first.
inductive Yields (data : DataRef) (fields : Keyed String Coercion) (own later : List Transform) :
    (loaded climbed : Bool) → Recipe → Prop where
  | loading {climbed : Bool} (types : Keyed String String) : (climbed = false → own = []) →
      types.entries = fields.entries.map (fun entry => (entry.1, entry.2.name)) →
      data.Yields fields own later true climbed ⟨data.origin, some ⟨data.kind?, types⟩, own ++ later⟩
  | before : data.Yields fields own later false true
      ⟨data.origin, data.kind?.map fun kind => ⟨some kind, .empty⟩,
        fields.entries.map coercionFormula ++ own ++ later⟩
  | behind : data.Yields fields own later false false
      ⟨data.origin, data.kind?.map fun kind => ⟨some kind, .empty⟩,
        own ++ fields.entries.map coercionFormula ++ later⟩

end DataRef

namespace Compilation

def Numbers (us : List Unit) (v : UnitView) : Prop :=
  ∃ u ∈ us, u.context.unitName = v.unitName ∧ ∃ s ∈ u.selections.values,
    ∃ p ∈ s.project, p.fieldName = Flow.tupleId

-- What a view asks to be done, as its transforms, its encodings and the selections under its name say it.
structure Work (registry : Registry) (us : List Unit) (v : UnitView) where
  own : List Transform
  numbers : List Transform
  encoded : List (List Transform)
  summary : List Transform
  fields : Keyed String Coercion
  transforms : List.Forall₂ (TransformDef.Does registry (indexOf us)) v.transform own
  numbering : Numbers us v ∧ numbers = [.identifier Flow.tupleId] ∨ ¬ Numbers us v ∧ numbers = []
  encodings : List.Forall₂ FieldDef.Does v.encoding.values encoded
  summarizes : v.Summarizes summary
  coerces : ∀ field c, (field, c) ∈ fields.entries ↔ v.Coerces field c

variable {us : List Unit}

def Work.later (w : Work registry us v) : List Transform := w.numbers ++ w.encoded.flatten ++ w.summary

theorem Work.unique (w w' : Work registry us v) :
    w.own = w'.own ∧ w.later = w'.later ∧ w.fields.entries.Perm w'.fields.entries := by
  have transform : Relator.RightUnique (TransformDef.Does registry (indexOf us)) :=
    fun _ _ _ => TransformDef.Does.unique
  have encoding : Relator.RightUnique FieldDef.Does := fun _ _ _ => FieldDef.Does.unique
  have own : w.own = w'.own := transform.forall₂ w.transforms w'.transforms
  have numbers : w.numbers = w'.numbers := by
    rcases w.numbering with ⟨some, numbers⟩ | ⟨none, numbers⟩ <;>
      rcases w'.numbering with ⟨some', numbers'⟩ | ⟨none', numbers'⟩
    · rw [numbers, numbers']
    · exact absurd some none'
    · exact absurd some' none
    · rw [numbers, numbers']
  have encoded : w.encoded = w'.encoded := encoding.forall₂ w.encodings w'.encodings
  have summary : w.summary = w'.summary := w.summarizes.unique w'.summarizes
  refine ⟨own, by unfold later; rw [numbers, encoded, summary], ?_⟩
  apply (List.perm_ext_iff_of_nodup (.of_map _ w.fields.nodup) (.of_map _ w'.fields.nodup)).mpr
  intro entry
  exact (w.coerces entry.1 entry.2).trans (w'.coerces entry.1 entry.2).symm

end Compilation

namespace Flow.Pipeline

end Flow.Pipeline

namespace Flow

end Flow
end Viewflow
