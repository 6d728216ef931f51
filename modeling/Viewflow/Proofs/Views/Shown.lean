import Viewflow.Proofs.Selections.Lifted
import Viewflow.Proofs.Views.Scene

namespace Viewflow
open Viewflow.Flow (Forest Outputs)
open Output (Dataset Mark Signal)

variable {written written' stores : List Dataset} {s : Selection}

namespace Selections

theorem addStore_behind (free : s.store ∉ Dataset.names written) (stores : List Dataset) :
    addStore (written ++ stores) s = written ++ addStore stores s := by
  have listed : s.store ∈ Dataset.names (written ++ stores) ↔ s.store ∈ Dataset.names stores := by
    rw [Dataset.names, List.map_append, List.mem_append]
    exact or_iff_right free
  unfold addStore
  simp only [List.contains_iff_mem, listed]
  split
  · rfl
  · exact List.append_assoc ..

theorem stores_behind (free : ∀ name, name ++ "_store" ∉ Dataset.names written) (selections : Selections)
    (stores : List Dataset) : selections.stores (written ++ stores) = written ++ selections.stores stores := by
  unfold Selections.stores
  induction selections.values generalizing stores with
  | nil => rfl
  | cons s rest ih => rw [List.foldl_cons, List.foldl_cons, addStore_behind (free s.name), ih]

end Selections

namespace Compilation

variable {forest forest' : Forest} {scene scene' after after' : Scene} {u : Unit} {o : Outputs}
  {pairs : List (Unit × Outputs)} {registry : Registry}

structure Scene.Over (written written' stores : List Dataset) (scene scene' : Scene) : Prop where
  data : scene.data = written ++ stores
  data' : scene'.data = written' ++ stores
  topSignals : scene'.topSignals = scene.topSignals
  unitSignals : scene'.unitSignals = scene.unitSignals
  marks : scene'.marks = scene.marks

section

variable (free : ∀ name, name ++ "_store" ∉ Dataset.names written)
  (free' : ∀ name, name ++ "_store" ∉ Dataset.names written')
include free free'

theorem addUnit_over (agree : scene.Over written written' stores scene')
    (same : forest'.step o.main = forest.step o.main)
    (done : addUnit registry forest scene u o = .ok after)
    (done' : addUnit registry forest' scene' u o = .ok after') :
    after.Over written written' (u.selections.stores stores) after' := by
  obtain ⟨main, marks, signals, top, output, drawn, heard, lifted, rfl⟩ := addUnit_parts done
  obtain ⟨main', marks', signals', top', output', drawn', heard', lifted', rfl⟩ := addUnit_parts done'
  rw [same, output] at output'
  cases output'
  rw [drawn] at drawn'
  cases drawn'
  rw [heard] at heard'
  cases heard'
  rw [agree.topSignals, lifted] at lifted'
  cases lifted'
  exact {
    data := agree.data ▸ Selections.stores_behind free u.selections stores
    data' := agree.data' ▸ Selections.stores_behind free' u.selections stores
    topSignals := rfl
    unitSignals := congrArg (· ++ _) agree.unitSignals
    marks := congrArg (· ++ _) agree.marks }

theorem addUnits_over (agree : scene.Over written written' stores scene')
    (same : ∀ pair ∈ pairs, forest'.step pair.2.main = forest.step pair.2.main)
    (done : addUnits registry forest scene pairs = .ok after)
    (done' : addUnits registry forest' scene' pairs = .ok after') :
    ∃ stores', after.Over written written' stores' after' := by
  unfold addUnits at done done'
  induction pairs generalizing scene scene' stores with
  | nil =>
    cases done
    cases done'
    exact ⟨stores, agree⟩
  | cons pair pairs ih =>
    rw [List.foldlM_cons] at done done'
    obtain ⟨middle, first, rest⟩ := bind_eq_ok done
    obtain ⟨middle', first', rest'⟩ := bind_eq_ok done'
    obtain ⟨here, others⟩ := List.forall_mem_cons.mp same
    exact ih (addUnit_over free free' agree here first first') others rest rest'

end

-- One of several views puts its own behind what the others show, and signals around theirs.
theorem addUnit_composed (composed : u.context.composed = true)
    (free : ∀ name, name ++ "_store" ∉ Dataset.names written) (data : scene.data = written ++ stores)
    (done : addUnit .builtIn forest scene u o = .ok after) :
    (∃ more, after.data = written ++ (stores ++ more)) ∧
      scene.topSignals.Sublist after.topSignals ∧ after.unitSignals = scene.unitSignals ∧
      scene.marks <+: after.marks := by
  obtain ⟨main, marks, signals, top, _, _, _, lifted, rfl⟩ := addUnit_parts done
  obtain ⟨more, kept⟩ := (u.selections.stores_extends stores).more
  refine ⟨⟨more, ?_⟩, Selections.sublist_topLevelSignals lifted, ?_, List.prefix_append _ _⟩
  · rw [← kept, ← Selections.stores_behind free, ← data]
  · simp [composed]

theorem addUnits_append (composed : u.context.composed = true)
    (free : ∀ name, name ++ "_store" ∉ Dataset.names written)
    (free' : ∀ name, name ++ "_store" ∉ Dataset.names written')
    (same : ∀ pair ∈ pairs, forest'.step pair.2.main = forest.step pair.2.main)
    (done : addUnits .builtIn forest ⟨written, [], [], []⟩ pairs = .ok after)
    (done' : addUnits .builtIn forest' ⟨written', [], [], []⟩ (pairs ++ [(u, o)]) = .ok after') :
    (∃ stores more, after.data = written ++ stores ∧ after'.data = written' ++ (stores ++ more)) ∧
      after.topSignals.Sublist after'.topSignals ∧ after'.unitSignals = after.unitSignals ∧
      after.marks <+: after'.marks := by
  unfold addUnits at done'
  rw [List.foldlM_append] at done'
  obtain ⟨middle, front, last⟩ := bind_eq_ok done'
  rw [List.foldlM_cons] at last
  obtain ⟨_, last, rest⟩ := bind_eq_ok last
  cases rest
  have bare : Scene.Over written written' [] ⟨written, [], [], []⟩ ⟨written', [], [], []⟩ :=
    ⟨(List.append_nil _).symm, (List.append_nil _).symm, rfl, rfl, rfl⟩
  obtain ⟨stores, agree⟩ := addUnits_over free free' bare same done front
  obtain ⟨⟨more, data⟩, top, inner, marks⟩ := addUnit_composed composed free' agree.data' last
  rw [agree.topSignals] at top
  rw [agree.unitSignals] at inner
  rw [agree.marks] at marks
  exact ⟨⟨stores, more, agree.data, data⟩, top, inner, marks⟩

end Compilation
end Viewflow
