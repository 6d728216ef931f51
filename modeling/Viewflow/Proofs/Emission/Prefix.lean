import Viewflow.Proofs.Emission.Assembled
import Viewflow.Proofs.Forest.Beside

namespace Viewflow.Flow
open Output (Dataset Recipe)

variable {demand demand' : Demand} {f g : Forest} {n : Nat} {id : NodeId} {step : Step}
  {ts : List Tree} {e : Emission} {pending : Recipe} {bound : List (NodeId × String)}

def Step.AsksAlike (demand demand' : Demand) (step : Step) : Prop :=
  ∀ b, step = .output b → demand'.isRequired b.name = demand.isRequired b.name

theorem absorbStep_congr (alike : step.AsksAlike demand demand') (underSource : Bool) :
    absorbStep demand' id underSource pending e step = absorbStep demand id underSource pending e step := by
  cases step with
  | output b => simp only [absorbStep, alike b rfl]
  | _ => rfl

def Tree.EmitsAlike (demand demand' : Demand) (t : Tree) : Prop :=
  ∀ underSource pending e,
    emitTree demand' underSource pending e t = emitTree demand underSource pending e t

theorem emitBranches_congr (alike : ∀ t ∈ ts, t.EmitsAlike demand demand') (underSource : Bool)
    (source : String) (e : Emission) :
    emitBranches demand' underSource source e ts = emitBranches demand underSource source e ts := by
  induction ts generalizing e with
  | nil => rw [emitBranches, emitBranches]
  | cons t ts ih =>
    obtain ⟨first, rest⟩ := List.forall_mem_cons.mp alike
    rw [emitBranches, emitBranches, first, ih rest]

theorem emitChildren_congr (alike : ∀ t ∈ ts, t.EmitsAlike demand demand') (underSource : Bool)
    (pending : Recipe) (e : Emission) :
    emitChildren demand' underSource pending e ts = emitChildren demand underSource pending e ts := by
  match ts with
  | [] => rw [emitChildren, emitChildren]
  | [child] =>
    rw [emitChildren, emitChildren]
    exact alike child (List.mem_singleton.mpr rfl) underSource pending e
  | first :: second :: rest =>
    rw [Forest.emitChildren_fork, Forest.emitChildren_fork]
    exact emitBranches_congr alike _ _ _

namespace Forest

theorem WellFormed.emitsAlike (valid : f.WellFormed) (alike : ∀ x, (f.step x).AsksAlike demand demand')
    (id : NodeId) : (f.tree id).EmitsAlike demand demand' := by
  refine valid.downward (motive := fun id => (f.tree id).EmitsAlike demand demand') (?_) id
  intro id ih underSource pending e
  have below : ∀ t ∈ (f.children id).map f.tree, t.EmitsAlike demand demand' := by
    intro t member
    obtain ⟨c, listed, rfl⟩ := List.mem_map.mp member
    exact ih c listed
  rw [valid.tree_eq, emitTree_node, emitTree_node, absorbStep_congr (alike id),
    emitChildren_congr below]

theorem WellFormed.emitTrees_congr (valid : f.WellFormed)
    (alike : ∀ x, (f.step x).AsksAlike demand demand') :
    emitTrees demand' f.trees = emitTrees demand f.trees := by
  unfold emitTrees
  refine List.foldl_ext _ _ _ fun e t member => ?_
  obtain ⟨r, _, rfl⟩ := List.mem_map.mp member
  exact valid.emitsAlike alike r false _ e

theorem step_bindAll_congr (same : g.step id = f.step id) :
    (bound.foldl bindSource g).step id = (bound.foldl bindSource f).step id := by
  induction bound generalizing f g with
  | nil => exact same
  | cons first rest ih =>
    refine ih ?_
    rw [step_bindSource, step_bindSource, same]
    split
    · next here => rw [← here, same]
    · rfl

-- The first trees of a forest are written out first, and as if they were alone, when the outputs on them
-- are asked for in the one table as in the other.
theorem Beside.assemble (beside : Beside n f g) (tops : g.SourcesOnTop)
    (alike : ∀ x, (f.step x).AsksAlike demand demand') :
    (f.assemble demand).2 <+: (g.assemble demand').2 ∧
      ∀ x, x.index < n → (g.assemble demand').1.step x = (f.assemble demand).1.step x := by
  obtain ⟨later, listed, high, trees⟩ := beside.trees
  have behind : ∀ r ∈ later, r ∈ g.roots := fun r member => listed ▸ List.mem_append_right _ member
  obtain ⟨log, bound, adds, _, wanted, _⟩ := beside.valid'.visitsRoots tops demand' later behind
    (emitTrees demand f.trees)
  have emits : emitTrees demand' g.trees = (later.map g.tree).foldl
      (fun e t => emitTree demand' false (rootRecipe t.step) e t) (emitTrees demand f.trees) := by
    rw [trees, ← beside.valid.emitTrees_congr alike]
    exact List.foldl_append
  refine ⟨⟨log.map (·.dataset), ?_⟩, ?_⟩
  · rw [Forest.assemble, Forest.assemble, emits]
    exact adds.datasets.symm
  · intro x low
    have absent : x ∉ bound.map Prod.fst := by
      intro member
      rw [wanted] at member
      obtain ⟨r, root, below⟩ := List.mem_flatMap.mp (List.mem_of_mem_filter member)
      have above := (beside.valid'.mem_ids_iff r x).mp below
      exact Nat.not_lt.mpr (beside.high_of_above (high r root) above) low
    rw [Forest.assemble, Forest.assemble, emits, adds.bound, List.foldl_append,
      step_bindAll_of_not_mem absent]
    exact step_bindAll_congr (beside.step x low)

end Forest
end Viewflow.Flow
