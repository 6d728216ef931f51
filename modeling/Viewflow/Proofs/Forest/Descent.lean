import Viewflow.Flow.Walk
import Viewflow.Proofs.Forest.WellFormed

namespace Viewflow.Flow

variable {f : Forest} {a id p x : NodeId}

namespace Tree

mutual

def ids : Tree → List NodeId
  | .node id _ children => id :: idsOfEach children

def idsOfEach : List Tree → List NodeId
  | [] => []
  | t :: rest => t.ids ++ idsOfEach rest

end

theorem idsOfEach_eq (ts : List Tree) : idsOfEach ts = ts.flatMap ids := by
  induction ts with
  | nil => rfl
  | cons t ts ih => rw [idsOfEach, ih, List.flatMap_cons]

end Tree

theorem Forest.step_tree (f : Forest) (id : NodeId) : (f.tree id).step = f.step id := by
  unfold tree
  cases f.size <;> rfl

namespace Forest.WellFormed

-- The lineage of a child is longer, and no lineage is longer than the forest is large.
theorem downward (valid : f.WellFormed) {motive : NodeId → Prop}
    (node : ∀ id, (∀ c ∈ f.children id, motive c) → motive id) (id : NodeId) : motive id := by
  induction room : f.size - (f.lineage id).length using Nat.strongRecOn generalizing id with
  | _ n ih =>
    apply node id
    intro c listed
    have named := valid.pointsBack id c listed
    have longer := valid.lineage_length (known_of_parent named)
    rw [valid.lineage_under named, List.length_cons] at longer
    refine ih _ ?_ c rfl
    rw [valid.lineage_under named, List.length_cons]
    omega

theorem treeFrom_succ (valid : f.WellFormed) (fuel : Nat) (id : NodeId)
    (deep : f.size ≤ fuel + (f.lineage id).length) :
    f.treeFrom (fuel + 1) id = f.treeFrom fuel id := by
  induction fuel generalizing id with
  | zero =>
    have childless : f.children id = [] := by
      apply List.eq_nil_iff_forall_not_mem.mpr
      intro c listed
      have named := valid.pointsBack id c listed
      have longer := valid.lineage_length (known_of_parent named)
      rw [valid.lineage_under named, List.length_cons] at longer
      omega
    simp [treeFrom, childless]
  | succ fuel ih =>
    rw [treeFrom, treeFrom]
    congr 1
    refine List.map_congr_left fun c listed => ih c ?_
    rw [valid.lineage_under (valid.pointsBack id c listed), List.length_cons]
    omega

theorem tree_eq (valid : f.WellFormed) (id : NodeId) :
    f.tree id = .node id (f.step id) ((f.children id).map f.tree) := by
  unfold tree
  rw [← valid.treeFrom_succ f.size id (Nat.le_add_right ..)]
  rfl

theorem ids_tree (valid : f.WellFormed) (id : NodeId) :
    (f.tree id).ids = id :: (f.children id).flatMap fun c => (f.tree c).ids := by
  rw [valid.tree_eq, Tree.ids, Tree.idsOfEach_eq, List.flatMap_map]

theorem mem_ids_iff (valid : f.WellFormed) (id x : NodeId) :
    x ∈ (f.tree id).ids ↔ Above f.parent? id x := by
  refine valid.downward (motive := fun id => ∀ x, x ∈ (f.tree id).ids ↔ Above f.parent? id x)
    (?_) id x
  intro id ih x
  rw [valid.ids_tree, List.mem_cons, List.mem_flatMap]
  constructor
  · rintro (rfl | ⟨c, listed, member⟩)
    · exact .here
    · exact (Above.parent (valid.pointsBack id c listed)).trans ((ih c listed x).mp member)
  · intro above
    rcases above.cases_child with same | ⟨c, named, above⟩
    · exact .inl same
    · have listed := valid.mem_children_iff.mpr named
      exact .inr ⟨c, listed, (ih c listed x).mpr above⟩

theorem apart_of_siblings (valid : f.WellFormed) {c d : NodeId} (one : f.parent? c = some p)
    (two : f.parent? d = some p) (different : c ≠ d) (left : Above f.parent? c x) :
    ¬ Above f.parent? d x := by
  intro right
  rcases left.linear right with above | above
  · rcases above.cases_parent two with same | above
    · exact different same
    · exact valid.no_return one above
  · rcases above.cases_parent one with same | above
    · exact different same.symm
    · exact valid.no_return two above

theorem ids_nodup (valid : f.WellFormed) (id : NodeId) : (f.tree id).ids.Nodup := by
  refine valid.downward (motive := fun id => (f.tree id).ids.Nodup) (?_) id
  intro id ih
  rw [valid.ids_tree, List.nodup_cons]
  refine ⟨?_, List.pairwise_flatMap.mpr ⟨fun c listed => ih c listed, ?_⟩⟩
  · intro again
    obtain ⟨c, listed, member⟩ := List.mem_flatMap.mp again
    exact valid.no_return (valid.pointsBack id c listed) ((valid.mem_ids_iff c id).mp member)
  · refine valid.children_nodup.imp_of_mem fun {c d} one two different x left y right same => ?_
    exact valid.apart_of_siblings (valid.pointsBack id c one) (valid.pointsBack id d two) different
      ((valid.mem_ids_iff c x).mp left) ((valid.mem_ids_iff d x).mp (same ▸ right))

theorem ids_length (valid : f.WellFormed) (known : id.index < f.size) :
    (f.tree id).ids.length ≤ f.size := by
  apply length_le_size (valid.ids_nodup id)
  intro x below
  cases (valid.mem_ids_iff id x).mp below with
  | here => exact known
  | under named _ => exact known_of_parent named

-- The stack holds the trees still to be visited.
theorem walkFrom_eq (valid : f.WellFormed) (fuel : Nat) (stack : List NodeId)
    (enough : (stack.flatMap fun id => (f.tree id).ids).length ≤ fuel) :
    f.walkFrom fuel stack = stack.flatMap fun id => (f.tree id).ids := by
  induction fuel generalizing stack with
  | zero =>
    unfold walkFrom
    exact (List.eq_nil_of_length_eq_zero (Nat.le_zero.mp enough)).symm
  | succ fuel ih =>
    cases stack with
    | nil => rfl
    | cons id stack =>
      rw [List.flatMap_cons, valid.ids_tree, List.cons_append, ← List.flatMap_append] at enough ⊢
      unfold walkFrom
      rw [ih _ (Nat.le_of_succ_le_succ enough)]

theorem walk_eq (valid : f.WellFormed) (known : id.index < f.size) :
    f.walk id = (f.tree id).ids := by
  unfold walk
  rw [valid.walkFrom_eq f.size [id] (by simpa using valid.ids_length known)]
  simp

theorem walkAll_eq (valid : f.WellFormed) :
    f.walkAll = f.roots.flatMap fun r => (f.tree r).ids := by
  have walks : f.roots.map f.walk = f.roots.map fun r => (f.tree r).ids :=
    List.map_congr_left fun r root => valid.walk_eq (valid.rootKnown r root)
  unfold walkAll
  rw [List.flatMap_def, walks, ← List.flatMap_def]

theorem mem_walkAll_iff (valid : f.WellFormed) : id ∈ f.walkAll ↔ f.isAttached id = true := by
  rw [valid.walkAll_eq, List.mem_flatMap, valid.isAttached_iff]
  simp only [valid.mem_ids_iff]

theorem walkAll_nodup (valid : f.WellFormed) : f.walkAll.Nodup := by
  rw [valid.walkAll_eq]
  refine List.pairwise_flatMap.mpr ⟨fun r _ => valid.ids_nodup r, ?_⟩
  refine valid.rootsDistinct.imp_of_mem fun {r s} one two different x left y right same => ?_
  have leftAbove := (valid.mem_ids_iff r x).mp left
  have rightAbove := (valid.mem_ids_iff s x).mp (same ▸ right)
  rcases leftAbove.linear rightAbove with above | above
  · exact different (above.eq_of_top (valid.rootTop s two))
  · exact different (above.eq_of_top (valid.rootTop r one)).symm

theorem walkAll_length (valid : f.WellFormed) : f.walkAll.length ≤ f.size := by
  apply length_le_size valid.walkAll_nodup
  intro x member
  exact valid.attached_known (valid.mem_walkAll_iff.mp member)

end Forest.WellFormed
end Viewflow.Flow
