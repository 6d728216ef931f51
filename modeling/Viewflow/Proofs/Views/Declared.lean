import Viewflow.Compile
import Viewflow.Proofs.Steps.Sameness

namespace Viewflow

namespace Index

variable {index : Index} {view : String} {s : Selection} {i : Instance}

def Holds (index : Index) (i : Instance) : Prop := i ∈ index.values.flatten

theorem holds_iff : index.Holds i ↔ ∃ name found, index.find? name = some found ∧ i ∈ found := by
  unfold Holds
  simp only [List.mem_flatten, Keyed.mem_values_iff]
  constructor
  · rintro ⟨found, ⟨name, same⟩, member⟩
    exact ⟨name, found, same, member⟩
  · rintro ⟨name, found, same, member⟩
    exact ⟨found, ⟨name, same⟩, member⟩

theorem holds_insert : (index.insert view s).Holds i ↔ index.Holds i ∨ i = ⟨view, s⟩ := by
  unfold insert
  simp only [holds_iff, Keyed.find?_put]
  constructor
  · rintro ⟨name, found, same, member⟩
    split at same
    · cases same
      rcases List.mem_append.mp member with old | new
      · cases before : index.find? s.name with
        | none =>
          rw [before] at old
          cases old
        | some found =>
          rw [before] at old
          exact .inl ⟨s.name, found, before, old⟩
      · exact .inr (List.mem_singleton.mp new)
    · exact .inl ⟨name, found, same, member⟩
  · rintro (⟨name, found, same, member⟩ | rfl)
    · by_cases here : name = s.name
      · refine ⟨name, _, if_pos here, List.mem_append_left _ ?_⟩
        rw [← here, same]
        exact member
      · exact ⟨name, found, by rw [if_neg here, same], member⟩
    · exact ⟨s.name, _, if_pos rfl, List.mem_append_right _ (List.mem_singleton.mpr rfl)⟩

theorem holds_insertAll {selections : Selections} :
    (index.insertAll view selections).Holds i ↔
      index.Holds i ∨ i.view = view ∧ i.selection ∈ selections.values := by
  unfold insertAll
  induction selections.values generalizing index with
  | nil => simp
  | cons s rest ih =>
    rw [List.foldl_cons, ih, holds_insert, List.mem_cons, or_assoc]
    obtain ⟨v, t⟩ := i
    simp only [Instance.mk.injEq]
    grind

end Index

namespace Compilation

theorem holds_indexOf {us : List Unit} {i : Instance} :
    (indexOf us).Holds i ↔
      ∃ u ∈ us, i.view = u.context.unitName ∧ i.selection ∈ u.selections.values := by
  have grown : ∀ index : Index,
      (us.foldl (fun index u => index.insertAll u.context.unitName u.selections) index).Holds i ↔
        index.Holds i ∨ ∃ u ∈ us, i.view = u.context.unitName ∧ i.selection ∈ u.selections.values := by
    induction us with
    | nil => simp
    | cons u us ih =>
      intro index
      rw [List.foldl_cons, ih, Index.holds_insertAll, List.exists_mem_cons_iff, or_assoc]
  unfold indexOf
  rw [grown]
  simp [Index.Holds, Keyed.empty, Keyed.values]

end Compilation

end Viewflow
