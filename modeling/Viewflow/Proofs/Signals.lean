import Viewflow.Proofs.Referring
import Viewflow.Proofs.Views.Above

namespace Viewflow
open Viewflow.Compilation (addUnit addUnits Scene)
open Viewflow.Flow (Forest Outputs)
open Output (Mark Signal)
open Output.Signal (names names_append)
open Text (softened)

variable {config : Config} {registry : Registry} {spec : Spec} {us : List Compilation.Unit} {c : Compiled}
  {forest : Forest} {scene scene' : Scene} {u : Compilation.Unit} {o : Outputs} {scope : Scope}
  {pairs : List (Compilation.Unit × Outputs)} {ctx : UnitContext} {s : Selection} {selections : Selections}
  {composed : Bool} {top : List Signal}

-- A signal is named after its selection, with a part behind the name. For an interval the fields of its
-- channels are parts like any other, and for a view alone so are the fields that its widgets set.
structure Selection.KeepsApart (s : Selection) (composed : Bool) : Prop where
  fields : s.type = "interval" → s.fieldParts.Nodup
  reserved : s.type = "interval" → ∀ part ∈ s.fieldParts, part ∉ s.reserved
  widgets : composed = false → Refinement.inputs.applies s = true →
    ∀ p ∈ s.project, softened p.fieldName ∉ s.parts

theorem Selection.keepsApart_iff : s.KeepsApart composed ↔ s.parts.Nodup ∧
    (composed = false → Refinement.inputs.applies s = true → ∀ p ∈ s.project,
      softened p.fieldName ∉ s.parts) := by
  rw [parts_nodup_iff]
  constructor
  · exact fun keeps => ⟨fun interval => ⟨keeps.fields interval, keeps.reserved interval⟩, keeps.widgets⟩
  · exact fun ⟨fields, widgets⟩ => ⟨fun interval => (fields interval).1,
      fun interval => (fields interval).2, widgets⟩

instance : Decidable (s.KeepsApart composed) := decidable_of_iff _ Selection.keepsApart_iff.symm

namespace Selections

theorem names_nodup (made : ofView ctx registry config.selection = .ok selections) :
    (selections.values.map (·.name)).Nodup := by
  have keys : selections.values.map (·.name) = selections.keys := by
    unfold Keyed.values Keyed.keys
    rw [List.map_map]
    refine List.map_congr_left fun entry listed => ?_
    exact (ofView_find? made ((selections.find?_eq_some_iff).mpr listed)).1
  exact keys ▸ selections.nodup

theorem names_signals {signals : List Signal} (made : ofView ctx .builtIn config.selection = .ok selections)
    (heard : selections.signals ctx .builtIn [] = .ok signals) :
    names signals = selections.values.flatMap Selection.signalNames :=
  names_foldlM (fun _ listed => (mem_ofView made listed).2.safe) heard

theorem Apart.nodup_signals_iff {signals : List Signal} (apart : Apart selections.values)
    (made : ofView ctx .builtIn config.selection = .ok selections)
    (heard : selections.signals ctx .builtIn [] = .ok signals) :
    (names signals).Nodup ↔ ∀ s ∈ selections.values, s.parts.Nodup := by
  rw [names_signals made heard]
  exact apart.nodup_iff (names_nodup made)

theorem Apart.nodup_alone_iff {signals : List Signal} (apart : Apart selections.values)
    (alone : ctx.composed = false) (made : ofView ctx .builtIn config.selection = .ok selections)
    (lifted : selections.topLevelSignals ctx .builtIn [] = .ok top)
    (heard : selections.signals ctx .builtIn [] = .ok signals) :
    (names (top ++ signals)).Nodup ↔ ∀ s ∈ selections.values, s.KeepsApart false := by
  have lists : ∀ s ∈ selections.values, ∀ part, s.continued part ∈ names signals ↔ part ∈ s.parts := by
    intro s listed part
    rw [names_signals made heard]
    exact apart.mem_iff (names_nodup made) listed
  have sets : ∀ s ∈ selections.values, ∀ p,
      Refinement.inputSignal s p = s.continued (softened p.fieldName) :=
    fun s listed p => s.inputSignal_continued (mem_ofView made listed).2.safe p
  have known : ∀ name ∈ names signals, name ≠ "unit" := by
    rw [names_signals made heard]
    intro name member
    obtain ⟨s, _, own⟩ := List.mem_flatMap.mp member
    obtain ⟨part, _, rfl⟩ := List.mem_map.mp own
    exact s.continued_ne_unit part
  have disjoint : (names top).Disjoint (names signals) ↔ ∀ s ∈ selections.values,
      Refinement.inputs.applies s = true → ∀ p ∈ s.project, softened p.fieldName ∉ s.parts := by
    constructor
    · intro disjoint s listed applies p projected part
      have there := (lists s listed _).mpr part
      refine disjoint ((mem_topLevelSignals alone lifted (known _ there)).mpr (.inr ?_)) there
      exact ⟨s, listed, applies, p, projected, (sets s listed p).symm⟩
    · intro widgets name above there
      rcases (mem_topLevelSignals alone lifted (known _ there)).mp above with none | ⟨s, listed, set⟩
      · cases none
      · obtain ⟨applies, p, projected, rfl⟩ := set
        rw [sets s listed p, lists s listed] at there
        exact widgets s listed applies p projected there
  rw [names_append, List.nodup_append', disjoint, apart.nodup_signals_iff made heard]
  simp only [Selection.keepsApart_iff, true_imp_iff]
  constructor
  · exact fun ⟨_, own, widgets⟩ s listed => ⟨own s listed, widgets s listed⟩
  · exact fun keeps => ⟨nodup_topLevelSignals lifted List.nodup_nil, fun s listed => (keeps s listed).1,
      fun s listed => (keeps s listed).2⟩

end Selections

theorem Output.Mark.signals_eq_nil {m : Mark} (quiet : m.everySignal = []) : m.signals = [] := by
  cases m
  exact (List.append_eq_nil_iff.mp quiet).1

namespace Scope

theorem Made.nodup_signals_iff (made : scope.Made .builtIn forest u o)
    (own : Selections.ofView u.context .builtIn config.selection = .ok u.selections)
    (apart : Selections.Apart u.selections.values) :
    (names scope.signals).Nodup ↔ ∀ s ∈ u.selections.values, s.parts.Nodup :=
  apart.nodup_signals_iff own made.signals

theorem Made.signals_framed (made : scope.Made .builtIn forest u o)
    (alone : scope.context.composed = false) {m : Mark} (member : m ∈ scope.framed) : m.signals = [] := by
  have bare : scope.framed = scope.marks := if_neg (Bool.eq_false_iff.mp alone)
  rw [bare] at member
  exact Mark.signals_eq_nil (made.everySignal_marks member)

theorem nodup_framed_iff (composed : scope.context.composed = true) :
    (∀ m ∈ scope.framed, (names m.signals).Nodup) ↔ (names scope.signals).Nodup := by
  have group : scope.framed = [Mark.group (scope.context.nameOf "group") scope.signals scope.marks] :=
    if_pos composed
  rw [group, List.forall_mem_singleton]
  rfl

end Scope

namespace Compilation

variable {scopes : List Scope}

theorem composed_of_units (made : units spec registry config.selection = .ok us) (listed : u ∈ us) :
    u.context.composed = spec.isComposed := by
  have context : u.context ∈ spec.contexts := units_spec made ▸ List.mem_map_of_mem listed
  obtain ⟨view, _, same⟩ := List.mem_map.mp context
  rw [← same]

theorem length_le_one (made : units spec registry config.selection = .ok us)
    (alone : spec.isComposed = false) : us.length ≤ 1 := by
  rw [← List.length_map (·.context), units_spec made, Spec.contexts, List.length_map]
  simpa [Spec.isComposed] using alone

theorem nodup_alone_iff (made : units spec .builtIn config.selection = .ok us)
    (alone : spec.isComposed = false) (apart : ∀ u ∈ us, Selections.Apart u.selections.values)
    (brought : Scopes .builtIn forest pairs scopes) (paired : pairs.map Prod.fst = us)
    (done : addUnits .builtIn forest scene pairs = .ok scene') (empty : scene.topSignals = []) :
    (names (scene'.topSignals ++ scopes.flatMap Scope.loose)).Nodup ↔
      ∀ u ∈ us, ∀ s ∈ u.selections.values, s.KeepsApart false := by
  subst paired
  have single := length_le_one made alone
  rw [List.length_map] at single
  match pairs, brought with
  | [], .nil =>
    cases done
    simp [empty]
  | [(u, o)], .cons own .nil =>
    have listed : u ∈ [(u, o)].map Prod.fst := List.mem_singleton.mpr rfl
    have here : u.context.composed = false := (composed_of_units made listed).trans alone
    obtain ⟨middle, first, rest⟩ := bind_eq_ok done
    cases rest
    have lifted := addUnit_top first
    unfold addAbove at lifted
    rw [empty] at lifted
    have loose : ∀ scope : Scope, scope.unit = u → scope.loose = scope.signals := by
      rintro scope rfl
      exact if_neg (Bool.eq_false_iff.mp here)
    rw [List.flatMap_singleton, loose _ own.unit,
      (apart u listed).nodup_alone_iff here (units_made made u listed) lifted own.signals]
    rw [List.map_cons, List.map_nil, List.forall_mem_singleton]

end Compilation

open Compilation in
theorem compile_signal_names (done : compile config .builtIn spec = .ok c)
    (made : units spec .builtIn config.selection = .ok us) :
    (spec.isComposed = true → (names c.signals).Nodup) ∧
      ((∀ u ∈ us, Selections.Apart u.selections.values) →
        ((names c.signals).Nodup ∧ (∀ m ∈ c.marks, (names m.signals).Nodup) ↔
          ∀ u ∈ us, ∀ s ∈ u.selections.values, s.KeepsApart spec.isComposed)) := by
  obtain ⟨us', forest, demand, outputs, scene, scopes, made', placed, shown, _, brought, same, _,
    signals, marks, _⟩ := compile_staged done
  rw [made] at made'
  cases made'
  have whole : ∀ scope ∈ scopes, scope.context.composed = spec.isComposed :=
    fun scope member => composed_of_units made (same ▸ List.mem_map_of_mem member)
  cases composed : spec.isComposed with
  | true =>
    rw [composed] at whole
    have distinct : (names c.signals).Nodup := by
      have none : scopes.flatMap Scope.loose = [] :=
        List.flatMap_eq_nil_iff.mpr fun scope member => if_pos (whole scope member)
      rw [signals, none, List.append_nil]
      exact addUnits_top shown List.nodup_nil
    refine ⟨fun _ => distinct, fun apart => ?_⟩
    rw [and_iff_right distinct, marks, ← same, List.forall_mem_map]
    simp only [List.forall_mem_flatMap]
    refine forall₂_congr fun scope member => ?_
    obtain ⟨u, o, _, own⟩ := brought.exists_pair member
    obtain rfl := own.unit
    have listed : scope.unit ∈ us := same ▸ List.mem_map_of_mem member
    rw [Scope.nodup_framed_iff (whole scope member),
      own.nodup_signals_iff (units_made made _ listed) (apart _ listed)]
    refine forall₂_congr fun s _ => ?_
    rw [Selection.keepsApart_iff]
    simp
  | false =>
    rw [composed] at whole
    refine ⟨nofun, fun apart => ?_⟩
    have quiet : ∀ m ∈ c.marks, (names m.signals).Nodup := by
      intro m member
      rw [marks] at member
      obtain ⟨scope, member, frame⟩ := List.mem_flatMap.mp member
      obtain ⟨u, o, _, own⟩ := brought.exists_pair member
      rw [own.signals_framed (whole scope member) frame]
      exact List.nodup_nil
    rw [and_iff_left quiet, signals]
    exact nodup_alone_iff made composed apart brought (brought.units_eq.symm.trans same) shown rfl

def brushing (field : String) : Spec :=
  ⟨[{ plotted "v" [] with
      encoding := Keyed.empty.put .x ⟨some field, .quantitative, none, false, none, none⟩
      selection := Keyed.empty.put "brush" { type := "interval", encodings := some [.x] } }]⟩

open Compilation in
theorem compile_signal_names_miles :
    ∃ c, compile {} .builtIn (brushing "miles") = .ok c ∧ (names c.signals).Nodup := by
  have counted : (compile {} .builtIn (brushing "miles")).toOption.map (·.signals.length) = some 10 := by
    decide +kernel
  have checked : (units (brushing "miles") .builtIn {}).toOption.map (fun us =>
      decide (∀ u ∈ us, Selections.Apart u.selections.values ∧
        ∀ s ∈ u.selections.values, s.KeepsApart (brushing "miles").isComposed)) = some true := by
    decide +kernel
  obtain ⟨c, done, _⟩ := Forest.exists_ok counted
  obtain ⟨us, made, keeps⟩ := Forest.exists_ok checked
  have every := of_decide_eq_true keeps
  have distinct := (compile_signal_names done made).2 fun u listed => (every u listed).1
  exact ⟨c, done, (distinct.mpr fun u listed => (every u listed).2).1⟩

-- A field that goes by the name of its channel: the extent in pixels and the extent of the data are two
-- signals of one name.
theorem compile_signal_names_meet :
    ∃ c, compile {} .builtIn (brushing "x") = .ok c ∧ (names c.signals).count "brush_x" = 2 ∧
      ¬ (names c.signals).Nodup := by
  have counted : (compile {} .builtIn (brushing "x")).toOption.map (fun c =>
      (names c.signals).count "brush_x") = some 2 := by
    decide +kernel
  obtain ⟨c, done, twice⟩ := Forest.exists_ok counted
  refine ⟨c, done, twice, fun distinct => ?_⟩
  have once := List.nodup_iff_count_le_one.mp distinct "brush_x"
  rw [twice] at once
  exact absurd once (by decide)

end Viewflow
