import Viewflow.Proofs.Selections.Completed
import Viewflow.Proofs.Views.Declared

namespace Viewflow

variable {ctx : UnitContext} {registry : Registry} {config : SelectionConfig} {name : String}
  {s : Selection} {done selections : Selections} {entries : List (String × SelectionDef)}

namespace Selections

def Completes (ctx : UnitContext) (registry : Registry) (config : SelectionConfig)
    (entries : List (String × SelectionDef)) (s : Selection) : Prop :=
  ∃ entry ∈ entries, Selection.complete ctx registry config entry.1 entry.2 = .ok s

theorem completeEach_reports :
    Reports (completeEach ctx registry config entries done)
      (entries.flatMap fun e => e.2.wrong registry e.1) := by
  induction entries generalizing done with
  | nil => exact .ok done
  | cons e entries ih => exact Selection.complete_reports.bind fun s _ => ih

theorem completeEach_spec (made : completeEach ctx registry config entries done = .ok selections) :
    ∃ completed, List.Forall₂ (fun e s => Selection.complete ctx registry config e.1 e.2 = .ok s)
        entries completed ∧ selections = done.putAll (completed.map fun s => (s.name, s)) := by
  induction entries generalizing done with
  | nil =>
    cases made
    exact ⟨[], .nil, rfl⟩
  | cons e entries ih =>
    obtain ⟨s, first, rest⟩ := bind_eq_ok made
    obtain ⟨completed, every, rfl⟩ := ih rest
    exact ⟨s :: completed, .cons first every, rfl⟩

-- The selections that the declarations give, put in one after the other.
theorem ofView_spec (made : ofView ctx registry config = .ok selections) :
    ∃ completed, List.Forall₂ (fun e s => Selection.complete ctx registry config e.1 e.2 = .ok s)
        ctx.view.selection.entries completed ∧
      selections = Keyed.ofList (completed.map fun s => (s.name, s)) := completeEach_spec made

theorem keys_completed {completed : List Selection}
    (every : List.Forall₂ (fun e s => Selection.complete ctx registry config e.1 e.2 = .ok s)
      entries completed) :
    (completed.map fun s => (s.name, s)).map Prod.fst = entries.map fun e => Text.identifier e.1 := by
  induction every with
  | nil => rfl
  | cons first _ ih => simp only [List.map_cons, ih, Selection.complete_name first]

theorem ofView_reports :
    Reports (ofView ctx registry config)
      (ctx.view.selection.entries.flatMap fun e => e.2.wrong registry e.1) :=
  completeEach_reports

theorem ofView_find? (made : ofView ctx registry config = .ok selections)
    (found : selections.find? name = some s) :
    s.name = name ∧ Completes ctx registry config ctx.view.selection.entries s := by
  obtain ⟨completed, every, rfl⟩ := ofView_spec made
  rw [Keyed.find?_ofList, List.lookup_eq_some_iff] at found
  obtain ⟨_, _, split, _⟩ := found
  have member : (name, s) ∈ (completed.map fun s => (s.name, s)).reverse := by simp [split]
  obtain ⟨t, listed, same⟩ := List.mem_map.mp (List.mem_reverse.mp member)
  cases same
  obtain ⟨e, declared, completes⟩ := forall₂_exists every listed
  exact ⟨rfl, e, declared, completes⟩

theorem mem_ofView (made : ofView ctx registry config = .ok selections) (listed : s ∈ selections.values) :
    selections.find? s.name = some s ∧
      Completes ctx registry config ctx.view.selection.entries s := by
  obtain ⟨key, found⟩ := Keyed.mem_values_iff.mp listed
  obtain ⟨named, completes⟩ := ofView_find? made found
  exact ⟨named ▸ found, completes⟩

theorem ofView_keys (made : ofView ctx registry config = .ok selections) :
    name ∈ selections.keys ↔ ∃ e ∈ ctx.view.selection.entries, Text.identifier e.1 = name := by
  obtain ⟨completed, every, rfl⟩ := ofView_spec made
  rw [Keyed.keys_ofList, Distinct.mem_ofList, keys_completed every, List.mem_map]

theorem Completes.registered (completes : Completes ctx registry config entries s) :
    (registry.find? s.type).isSome = true := by
  obtain ⟨e, _, completes⟩ := completes
  rw [Selection.complete_type completes]
  exact (Selection.complete_spec completes).1

theorem Completes.safe (completes : Completes ctx registry config entries s) :
    Text.identifier s.name = s.name := by
  obtain ⟨e, _, completes⟩ := completes
  rw [Selection.complete_name completes, Text.identifier_identifier]

end Selections

namespace Index

variable {index : Index} {view : String} {found : List Instance} {i : Instance}

structure Sorted (index : Index) : Prop where
  filled : ∀ name found, index.find? name = some found → found ≠ []
  named : ∀ name found, index.find? name = some found → ∀ i ∈ found, i.selection.name = name
  safe : ∀ name found, index.find? name = some found → Text.identifier name = name

theorem Sorted.empty : Sorted (.empty : Index) := by
  refine ⟨?_, ?_, ?_⟩ <;> intro _ _ none <;> cases none

theorem Sorted.insert (sorted : index.Sorted) (safe : Text.identifier s.name = s.name) :
    (index.insert view s).Sorted := by
  refine ⟨?_, ?_, ?_⟩ <;> intro name found here <;> unfold Index.insert at here <;>
    rw [Keyed.find?_put] at here <;> split at here
  · cases here
    simp
  · exact sorted.filled name found here
  · next same =>
    cases here
    intro i member
    rcases List.mem_append.mp member with old | new
    · cases before : index.find? s.name with
      | none =>
        rw [before] at old
        cases old
      | some found =>
        rw [before] at old
        exact (sorted.named s.name found before i old).trans same.symm
    · rw [List.mem_singleton.mp new, same]
  · exact sorted.named name found here
  · next same => rw [same, safe]
  · exact sorted.safe name found here

theorem Sorted.insertAll {selections : Selections} (sorted : index.Sorted)
    (safe : ∀ s ∈ selections.values, Text.identifier s.name = s.name) :
    (index.insertAll view selections).Sorted := by
  unfold Index.insertAll
  generalize selections.values = values at safe
  induction values generalizing index with
  | nil => exact sorted
  | cons s rest ih =>
    exact ih (sorted.insert (safe s (List.mem_cons_self ..)))
      fun t member => safe t (List.mem_cons_of_mem _ member)

theorem Sorted.mem_instances_iff (sorted : index.Sorted) :
    i ∈ index.instances name ↔ index.Holds i ∧ i.selection.name = name := by
  rw [holds_iff, instances]
  constructor
  · intro member
    cases here : index.find? name with
    | none =>
      rw [here] at member
      cases member
    | some found =>
      rw [here] at member
      exact ⟨⟨name, found, here, member⟩, sorted.named name found here i member⟩
  · rintro ⟨⟨key, found, here, member⟩, named⟩
    rw [sorted.named key found here i member] at named
    rw [← named, here]
    exact member

theorem Sorted.instances_of_key (sorted : index.Sorted) (listed : name ∈ index.keys) :
    index.instances name ≠ [] ∧ Text.identifier name = name := by
  obtain ⟨found, here⟩ := Keyed.mem_keys_iff.mp listed
  refine ⟨?_, sorted.safe name found here⟩
  rw [instances, here]
  exact sorted.filled name found here

end Index
end Viewflow
