import Viewflow.Proofs.Emission.Signals
import Viewflow.Proofs.Passes.Rounds

namespace Viewflow.Flow

variable {f g : Forest} {demand : Demand} {mains : List NodeId} {a id p kept twin x : NodeId}
  {n swapped : Nat} {steps : List Step} {s : Step}

namespace Forest

theorem WellFormed.ne_twins_of_output (valid : f.WellFormed)
    (found : f.firstTwins? (f.children p) = some (kept, twin)) (output : (f.step a).isOutput = true) :
    a ≠ kept ∧ a ≠ twin := by
  obtain ⟨_, _, _, quiet, equal⟩ := valid.twins_spec found
  refine ⟨?_, ?_⟩
  · rintro rfl
    rw [quiet] at output
    cases output
  · rintro rfl
    rw [← Step.isOutput_of_same equal, quiet] at output
    cases output

-- What defines signals stands behind an output, where nothing forks, so that merging passes it by.
structure Shielded (f : Forest) : Prop where
  valid : f.WellFormed
  behind : ∀ x, f.isAttached x = true → (f.step x).signals ≠ [] →
    ∃ a, Above f.parent? a x ∧ (f.step a).isOutput = true
  single : ∀ a p c d, (f.step a).isOutput = true → Above f.parent? a p → f.parent? c = some p →
    f.parent? d = some p → c = d

namespace Shielded

theorem not_below (shielded : f.Shielded) (one : f.parent? kept = some p)
    (two : f.parent? twin = some p) (apart : kept ≠ twin) (output : (f.step a).isOutput = true) :
    ¬ Above f.parent? a p :=
  fun above => apart (shielded.single a p kept twin output above one two)

theorem silent (shielded : f.Shielded) (attached : f.isAttached p = true)
    (found : f.firstTwins? (f.children p) = some (kept, twin)) : (f.step twin).signals = [] := by
  obtain ⟨apart, one, two, _⟩ := shielded.valid.twins_spec found
  by_contra loud
  have attached' := (shielded.valid.attached_iff_parent two).mpr attached
  obtain ⟨a, above, output⟩ := shielded.behind twin attached' loud
  rcases above.cases_parent two with same | above
  · exact (shielded.valid.ne_twins_of_output found output).2 same
  · exact shielded.not_below one two apart output above

section Absorbed

variable {down : NodeId → List NodeId} (shielded : f.Shielded)
  (found : f.firstTwins? (f.children p) = some (kept, twin)) (valid' : g.WellFormed)
  (relinked : Relinked f g (bypass f.parent? twin kept) down f.roots)
include shielded found valid' relinked

theorem behind_absorbed (attached : f.isAttached x = true) (remains : x ≠ twin)
    (loud : (f.step x).signals ≠ []) : ∃ a, Above g.parent? a x ∧ (f.step a).isOutput = true := by
  have valid := shielded.valid
  obtain ⟨apart, one, two, _⟩ := valid.twins_spec found
  obtain ⟨a, above, output⟩ := shielded.behind x attached loud
  refine ⟨a, ?_, output⟩
  rw [← valid'.mem_lineage_iff, valid.lineage_absorbed valid' one two apart relinked remains]
  have other := (valid.ne_twins_of_output found output).2
  exact List.mem_map.mpr ⟨a, valid.mem_lineage_iff.mpr above, if_neg other⟩

-- What is at or below an output is no parent of twins, and no twin itself.
theorem single_absorbed {c d q : NodeId} (output : (f.step a).isOutput = true)
    (above : Above g.parent? a q) (under : g.parent? c = some q) (under' : g.parent? d = some q) :
    c = d := by
  have valid := shielded.valid
  obtain ⟨apart, one, two, _⟩ := valid.twins_spec found
  have other := (valid.ne_twins_of_output found output).1
  have above := (above_absorbed valid valid' one two apart relinked above).resolve_right
    fun wrong => other wrong.1
  have elsewhere : q ≠ kept := by
    rintro rfl
    rcases above.cases_parent one with same | above
    · exact other same
    · exact shielded.not_below one two apart output above
  have before : ∀ x, g.parent? x = some q → f.parent? x = some q := by
    intro x edge
    rw [relinked.parent] at edge
    rcases bypass_cases edge with ⟨_, ⟨_, same⟩ | ⟨_, named⟩⟩
    · exact absurd same elsewhere
    · exact named
  exact shielded.single a q c d output above (before c under) (before d under')

end Absorbed

theorem absorbed (shielded : f.Shielded) (attached : f.isAttached p = true)
    (found : f.firstTwins? (f.children p) = some (kept, twin))
    (absorbed : f.absorb kept twin = .ok g) :
    g.Shielded ∧ g.signals g.attachedIds = f.signals f.attachedIds := by
  have valid := shielded.valid
  obtain ⟨apart, one, two, _⟩ := valid.twins_spec found
  obtain ⟨valid', down, relinked, _⟩ := of_ok (valid.absorb one two apart) absorbed
  have sheds := valid.sheds_absorbed valid' one two apart relinked
  refine ⟨⟨valid', ?_, ?_⟩, ?_⟩
  · intro x higher loud
    obtain ⟨before, remains⟩ := (sheds.attached_iff x).mp higher
    rw [relinked.steps] at loud ⊢
    exact shielded.behind_absorbed found valid' relinked before (by simpa using remains) loud
  · intro a q c d output above under under'
    rw [relinked.steps] at output
    exact shielded.single_absorbed found valid' relinked output above under under'
  · unfold Forest.signals
    rw [relinked.steps, sheds.attachedIds_eq]
    apply signals_filter
    intro x _ gone
    have same : x = twin := by simpa using gone
    rw [same, shielded.silent attached found]

theorem joins (shielded : f.Shielded) (joins : Joins f n g) :
    g.signals g.attachedIds = f.signals f.attachedIds := by
  induction joins with
  | none => rfl
  | join attached found absorbed _ ih =>
    obtain ⟨shielded', same⟩ := shielded.absorbed attached found absorbed
    exact (ih shielded').trans same

end Shielded

theorem Strands.shielded (strands : f.Strands demand.Spares)
    (behind : ∀ x, f.isAttached x = true → (f.step x).signals ≠ [] →
      ∃ a, Above f.parent? a x ∧ (f.step a).isOutput = true) : f.Shielded := by
  refine ⟨strands.valid, behind, ?_⟩
  intro a p c d output above under under'
  have inside : (f.step p).isSource = false := by
    rw [Bool.eq_false_iff]
    intro source
    rw [above.eq_of_top (strands.sources p source)] at output
    cases step : f.step p with
    | source _ => rw [step] at output; cases output
    | _ => rw [step] at source; cases source
  exact strands.single p c d inside under under'

-- Whatever defines signals is still there once after the passes, and nothing else defines any.
theorem Strands.signals_optimize (strands : f.Strands demand.Spares) (asked : f.Asked demand mains)
    (behind : ∀ x, f.isAttached x = true → (f.step x).signals ≠ [] →
      ∃ a, Above f.parent? a x ∧ (f.step a).isOutput = true)
    {bound : Nat} {tally : Tally} (done : f.optimize demand bound = .ok (g, tally)) :
    g.signals g.attachedIds = f.signals f.attachedIds := by
  obtain ⟨h, g', merged, tally', climbed, joined, done', settled, _⟩ :=
    strands.optimize_parts asked bound
  rw [done] at done'
  cases done'
  obtain ⟨_, raised⟩ := strands.raised (strands.valid.hoists_moveParseUp climbed)
  have same : h.signals h.attachedIds = f.signals f.attachedIds := by
    unfold Forest.signals
    rw [raised.step, raised.ids]
  have behind' : ∀ x, h.isAttached x = true → (h.step x).signals ≠ [] →
      ∃ a, Above h.parent? a x ∧ (h.step a).isOutput = true := by
    intro x attached loud
    have valid := raised.strands.valid
    rw [← valid.mem_attachedIds_iff, raised.ids, strands.valid.mem_attachedIds_iff] at attached
    rw [raised.step] at loud ⊢
    obtain ⟨a, above, output⟩ := behind x attached loud
    refine ⟨a, raised.above a x ?_ ?_ above, output⟩
    · cases step : f.step a with
      | output _ => rfl
      | _ => rw [step] at output; cases output
    · exact Bool.eq_false_iff.mpr fun parse => loud (Step.signals_of_parse parse)
  have joins := raised.strands.valid.joins_mergeSiblings joined
  exact ((raised.strands.shielded behind').joins joins).trans same

end Forest
end Viewflow.Flow
