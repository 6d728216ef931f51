import Viewflow.Proofs.Entries
import Viewflow.Proofs.Selections.Listed

namespace Viewflow.Selections

variable {ctx : UnitContext} {registry : Registry} {config : SelectionConfig} {name : String}
  {s : Selection} {selections : Selections} {entries : List (String × SelectionDef)}
  {completed : List Selection}

theorem lookup_completed
    (every : List.Forall₂ (fun e s => Selection.complete ctx registry config e.1 e.2 = .ok s)
      entries completed) :
    (completed.map fun s => (s.name, s)).lookup name = some s ↔
      ∃ e, entries.find? (fun e => Text.identifier e.1 == name) = some e ∧
        Selection.complete ctx registry config e.1 e.2 = .ok s := by
  induction every with
  | nil => simp
  | @cons e t _ _ first _ ih =>
    have named := Selection.complete_name first
    rw [List.map_cons, List.lookup_cons, List.find?_cons]
    by_cases same : Text.identifier e.1 = name
    · simp [named, same, first]
    · simp only [named, beq_eq_false_iff_ne.mpr same, beq_eq_false_iff_ne.mpr (Ne.symm same)]
      exact ih

def lastDeclared? (ctx : UnitContext) (name : String) : Option (String × SelectionDef) :=
  ctx.view.selection.entries.reverse.find? fun e => Text.identifier e.1 == name

def KeepsAll (ctx : UnitContext) (selections : Selections) : Prop :=
  List.Forall₂ (fun declared kept => kept.1 = Text.identifier declared.1 ∧ kept.2.name = kept.1 ∧
    kept.2.type = declared.2.type) ctx.view.selection.entries selections.entries

theorem KeepsAll.keys (keeps : selections.KeepsAll ctx) :
    selections.keys = ctx.view.selection.keys.map Text.identifier := by
  have same : List.Forall₂ (fun declared kept => Text.identifier declared = kept)
      ctx.view.selection.keys selections.keys := by
    unfold Keyed.keys
    rw [List.forall₂_map_left_iff, List.forall₂_map_right_iff]
    exact keeps.imp fun _ _ kept => kept.1.symm
  rw [← List.forall₂_map_left_iff (f := Text.identifier), List.forall₂_eq_eq_eq] at same
  exact same.symm

theorem keepsAll_of_nodup (made : ofView ctx registry config = .ok selections)
    (apart : (ctx.view.selection.keys.map Text.identifier).Nodup) : selections.KeepsAll ctx := by
  obtain ⟨completed, every, rfl⟩ := ofView_spec made
  have distinct : ((completed.map fun s => (s.name, s)).map Prod.fst).Nodup := by
    rw [Keyed.keys, List.map_map] at apart
    rw [keys_completed every]
    exact apart
  unfold KeepsAll
  rw [Keyed.entries_ofList distinct, List.forall₂_map_right_iff]
  refine every.imp fun e s first => ?_
  exact ⟨Selection.complete_name first, rfl, Selection.complete_type first⟩

-- The safe names stand in the order of their first declarations, each with the selection that its last
-- declaration gives.
theorem ofView_keeps (made : ofView ctx registry config = .ok selections) :
    selections.keys = (Distinct.ofList (ctx.view.selection.keys.map Text.identifier)).toList ∧
      (∀ name s, selections.find? name = some s ↔ ∃ declared, lastDeclared? ctx name = some declared ∧
        Selection.complete ctx registry config declared.1 declared.2 = .ok s) ∧
      (selections.KeepsAll ctx ↔ (ctx.view.selection.keys.map Text.identifier).Nodup) := by
  refine ⟨?_, ?_, ?_, keepsAll_of_nodup made⟩
  · obtain ⟨completed, every, rfl⟩ := ofView_spec made
    rw [Keyed.keys_ofList, keys_completed every, Keyed.keys, List.map_map]
    rfl
  · intro name s
    obtain ⟨completed, every, rfl⟩ := ofView_spec made
    rw [Keyed.find?_ofList, ← List.map_reverse]
    exact lookup_completed (List.forall₂_reverse_iff.mpr every)
  · intro keeps
    rw [← keeps.keys]
    exact selections.nodup

def brushThenPick (brush pick : String) : UnitContext where
  view :=
    { name := "cars", data := .remote "cars.json" none, transform := [], encoding := .empty
      selection := (Keyed.empty.put brush { type := "interval" }).put pick
        { type := "single", nearest := some true }
      mark := "point" }
  composed := false

theorem ofView_keeps_two : ∃ selections,
    ofView (brushThenPick "a-b" "a.c") .builtIn {} = .ok selections ∧
      selections.KeepsAll (brushThenPick "a-b" "a.c") := by
  have made : (ofView (brushThenPick "a-b" "a.c") .builtIn {}).toOption.map (·.keys.length) = some 2 := by
    decide +kernel
  obtain ⟨selections, made, _⟩ := Flow.Forest.exists_ok made
  exact ⟨selections, made, (ofView_keeps made).2.2.mpr (by decide +kernel)⟩

-- Two declarations of one safe name: the brush is gone.
theorem ofView_loses_one : ∃ selections,
    ofView (brushThenPick "a-b" "a_b") .builtIn {} = .ok selections ∧
      (selections.entries.map fun e => (e.1, e.2.type)) = [("a_b", "single")] ∧
      ¬ selections.KeepsAll (brushThenPick "a-b" "a_b") := by
  have made : (ofView (brushThenPick "a-b" "a_b") .builtIn {}).toOption.map (fun selections =>
      selections.entries.map fun e => (e.1, e.2.type)) = some [("a_b", "single")] := by decide +kernel
  obtain ⟨selections, made, kept⟩ := Flow.Forest.exists_ok made
  refine ⟨selections, made, kept, fun keeps => ?_⟩
  have one := congrArg List.length kept
  rw [List.length_map, ← keeps.length_eq] at one
  exact absurd one (by decide)

end Viewflow.Selections
