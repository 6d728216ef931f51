import Viewflow.Proofs.Emission.Written
import Viewflow.Proofs.Passes.Fixpoint

namespace Viewflow.Flow.Forest

variable {f g : Forest} {demand : Demand} {data : DataRef} {t : Tally}

theorem Brings.of_mergeParse {id into : NodeId} (brings : (f.mergeParse id into).Brings data) :
    f.Brings data := by
  obtain ⟨r, root, source⟩ := brings
  rw [roots_mergeParse] at root
  refine ⟨r, root, ?_⟩
  rcases mergeParse_cases f id into with same | ⟨_, merged, found, changed⟩
  · rwa [same] at source
  · rw [changed] at source
    rcases step_setStep_of_parse merged found r with same | ⟨_, after⟩
    · rwa [same] at source
    · rw [source] at after
      cases after

theorem Relinked.brings {up : NodeId → Option NodeId} {down : NodeId → List NodeId}
    {roots : List NodeId} (relinked : Relinked f g up down roots) (brings : g.Brings data)
    (kept : ∀ r ∈ roots, f.step r = .source data → r ∈ f.roots) : f.Brings data := by
  obtain ⟨r, root, source⟩ := brings
  rw [relinked.roots] at root
  rw [relinked.step] at source
  exact ⟨r, kept r root source, source⟩

theorem Move.brings (move : Move demand f t g) (valid : f.WellFormed) (brings : g.Brings data) :
    f.Brings data := by
  cases move with
  | drop spare _ removed =>
    obtain ⟨p, named⟩ := spare.placed
    obtain ⟨_, relinked⟩ := of_ok (valid.remove named) removed
    exact relinked.brings brings fun _ root _ => root
  | clear =>
    obtain ⟨r, root, source⟩ := brings
    exact ⟨r, (List.mem_filter.mp root).1, source⟩
  | climb named attached parse _ _ swapped =>
    obtain ⟨_, relinked⟩ :=
      of_ok (valid.swapWithParent named (valid.placed_of_attached named attached)) swapped
    refine relinked.brings brings fun r root source => ?_
    rcases (mem_replace valid.rootsDistinct).mp root with ⟨rfl, _⟩ | ⟨_, before⟩
    · rw [source] at parse
      cases parse
    · exact before
  | meet named _ _ _ removed =>
    obtain ⟨_, relinked⟩ :=
      of_ok ((valid.mergeParse _ _).remove ((WellFormed.parent_mergeParse f _ _ _).trans named)) removed
    exact (relinked.brings brings fun _ root _ => root).of_mergeParse
  | join _ found absorbed =>
    obtain ⟨apart, one, two, _⟩ := valid.twins_spec found
    obtain ⟨_, _, relinked, _⟩ := of_ok (valid.absorb one two apart) absorbed
    exact relinked.brings brings fun _ root _ => root

theorem Moves.brings (moves : Moves demand f t g) (valid : f.WellFormed) (brings : g.Brings data) :
    f.Brings data := by
  induction moves with
  | none => exact brings
  | more move _ ih => exact move.brings valid (ih (move.pays valid).valid brings)

theorem WellFormed.brings_optimize (valid : f.WellFormed) {bound : Nat}
    (done : f.optimize demand bound = .ok (g, t)) (brings : g.Brings data) : f.Brings data := by
  obtain ⟨_, _, _, moves⟩ := valid.moves_rounds _ _ done
  exact moves.brings valid brings

end Viewflow.Flow.Forest
