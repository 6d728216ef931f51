import Viewflow.Flow.Walk
import Viewflow.Proofs.Forest.Ancestry

namespace Viewflow.Flow.Forest

variable {f g : Forest} {a id p q r : NodeId} {l : List NodeId}

-- Each edge is held from both ends, once from above; roots stand once and at the top; every chain of
-- parents comes to an end, so that there are no cycles.
structure WellFormed (f : Forest) : Prop where
  pointsBack : ∀ p c, c ∈ f.children p → f.parent? c = some p
  listedOnce : ∀ p c, f.parent? c = some p → (f.children p).count c = 1
  rootKnown : ∀ r ∈ f.roots, r.index < f.size
  rootTop : ∀ r ∈ f.roots, f.parent? r = none
  rootsDistinct : f.roots.Nodup
  ends : ∀ id, Ends f.parent? id

theorem node_unknown (unknown : ¬ id.index < f.size) : f.node id = default := by
  have beyond : f.nodes.size ≤ id.index := Nat.le_of_not_lt unknown
  simp [node, Array.getD_eq_getD_getElem?, Array.getElem?_eq_none beyond]

theorem known_of_parent (named : f.parent? id = some p) : id.index < f.size := by
  apply Decidable.byContradiction
  intro unknown
  unfold parent? at named
  rw [node_unknown unknown] at named
  cases named

theorem known_of_child {c : NodeId} (listed : c ∈ f.children p) : p.index < f.size := by
  apply Decidable.byContradiction
  intro unknown
  unfold children at listed
  rw [node_unknown unknown] at listed
  cases listed

theorem length_le_size (distinct : l.Nodup) (known : ∀ a ∈ l, a.index < f.size) :
    l.length ≤ f.size := by
  have distinct' : (l.map NodeId.index).Nodup :=
    List.pairwise_map.mpr (distinct.imp fun differ same => differ (congrArg NodeId.mk same))
  have within : l.map NodeId.index ⊆ List.range f.size := by
    intro i member
    obtain ⟨a, listed, rfl⟩ := List.mem_map.mp member
    exact List.mem_range.mpr (known a listed)
  have bound := distinct'.length_le_of_subset within
  simpa using bound

namespace WellFormed

theorem empty : Forest.empty.WellFormed where
  pointsBack p c listed := by cases known_of_child listed
  listedOnce p c named := by cases known_of_parent named
  rootKnown r root := by cases root
  rootTop r root := by cases root
  rootsDistinct := .nil
  ends id := .top (by simp [parent?, node, Forest.empty]; rfl)

theorem mem_children_iff (valid : f.WellFormed) : id ∈ f.children p ↔ f.parent? id = some p := by
  refine ⟨valid.pointsBack p id, ?_⟩
  intro named
  have once := valid.listedOnce p id named
  exact List.count_pos_iff.mp (by omega)

theorem children_nodup (valid : f.WellFormed) : (f.children p).Nodup := by
  apply List.nodup_iff_count.mpr
  intro c
  by_cases listed : c ∈ f.children p
  · exact Nat.le_of_eq (valid.listedOnce p c (valid.pointsBack p c listed))
  · rw [List.count_eq_zero_of_not_mem listed]
    exact Nat.zero_le 1

theorem parent_known (valid : f.WellFormed) (named : f.parent? id = some p) : p.index < f.size :=
  known_of_child (valid.mem_children_iff.mpr named)

theorem not_root (valid : f.WellFormed) (named : f.parent? id = some p) : id ∉ f.roots := by
  intro root
  rw [valid.rootTop id root] at named
  cases named

theorem ne_parent (valid : f.WellFormed) (named : f.parent? id = some p) : id ≠ p :=
  (valid.ends id).ne_parent named

theorem no_return (valid : f.WellFormed) (named : f.parent? id = some p) :
    ¬ Above f.parent? id p :=
  (valid.ends id).no_return named

theorem above_known (valid : f.WellFormed) (above : Above f.parent? a id)
    (known : id.index < f.size) : a.index < f.size := by
  induction above with
  | here => exact known
  | under named _ ih => exact ih (valid.parent_known named)

theorem line_length (valid : f.WellFormed) (line : Line f.parent? id l) (known : id.index < f.size) :
    l.length ≤ f.size := by
  apply length_le_size (line.nodup (valid.ends id))
  intro a onLine
  exact valid.above_known (line.mem_iff.mp onLine) known

theorem lineage_line (valid : f.WellFormed) (id : NodeId) : Line f.parent? id (f.lineage id) := by
  have climbs : ∀ fuel id l, Line f.parent? id l → l.length ≤ fuel + 1 → f.climb fuel id = l := by
    intro fuel
    induction fuel with
    | zero =>
      intro id l line short
      cases line with
      | top _ => rfl
      | under _ line => cases line <;> simp at short
    | succ fuel ih =>
      intro id l line short
      cases line with
      | top top => simp [climb, top]
      | under named line =>
        simp only [List.length_cons, Nat.add_le_add_iff_right] at short
        simp only [climb, named]
        rw [ih _ _ line short]
  obtain ⟨l, line⟩ := (valid.ends id).line
  have enough : l.length ≤ f.size + 1 := by
    by_cases known : id.index < f.size
    · exact Nat.le_succ_of_le (valid.line_length line known)
    · cases line with
      | top _ => simp
      | under named _ => exact absurd (known_of_parent named) known
  unfold lineage
  rw [climbs f.size id l line enough]
  exact line

theorem lineage_length (valid : f.WellFormed) (known : id.index < f.size) :
    (f.lineage id).length ≤ f.size :=
  valid.line_length (valid.lineage_line id) known

theorem mem_lineage_iff (valid : f.WellFormed) : a ∈ f.lineage id ↔ Above f.parent? a id :=
  (valid.lineage_line id).mem_iff

theorem lineage_nodup (valid : f.WellFormed) (id : NodeId) : (f.lineage id).Nodup :=
  (valid.lineage_line id).nodup (valid.ends id)

theorem lineage_top (valid : f.WellFormed) (top : f.parent? id = none) : f.lineage id = [id] := by
  have line := valid.lineage_line id
  generalize f.lineage id = l at line
  cases line with
  | top _ => rfl
  | under named _ => rw [top] at named; cases named

theorem lineage_under (valid : f.WellFormed) (named : f.parent? id = some p) :
    f.lineage id = id :: f.lineage p := by
  have line := valid.lineage_line id
  generalize f.lineage id = l at line
  cases line with
  | top top => rw [top] at named; cases named
  | under named' line =>
    rw [named] at named'
    cases named'
    rw [(valid.lineage_line p).unique line]

theorem isAncestor_iff (valid : f.WellFormed) :
    f.isAncestor a id = true ↔ Above f.parent? a id := by
  unfold isAncestor
  rw [List.contains_iff_mem, valid.mem_lineage_iff]

theorem top_spec (valid : f.WellFormed) (id : NodeId) :
    Above f.parent? (f.top id) id ∧ f.parent? (f.top id) = none := by
  obtain ⟨top, last, orphan, above⟩ := (valid.lineage_line id).exists_top
  unfold Forest.top
  rw [List.getLastD_eq_getLast?, last, Option.getD_some]
  exact ⟨above, orphan⟩

theorem top_eq (valid : f.WellFormed) (above : Above f.parent? a id) (orphan : f.parent? a = none) :
    f.top id = a := by
  obtain ⟨above', orphan'⟩ := valid.top_spec id
  rcases above.linear above' with higher | higher
  · exact (higher.eq_of_top orphan').symm
  · exact higher.eq_of_top orphan

theorem isAttached_iff (valid : f.WellFormed) :
    f.isAttached id = true ↔ ∃ r ∈ f.roots, Above f.parent? r id := by
  unfold isAttached
  rw [List.contains_iff_mem]
  refine ⟨fun root => ⟨f.top id, root, (valid.top_spec id).1⟩, ?_⟩
  rintro ⟨r, root, above⟩
  rw [valid.top_eq above (valid.rootTop r root)]
  exact root

theorem attached_of_root (valid : f.WellFormed) (root : r ∈ f.roots) : f.isAttached r = true :=
  valid.isAttached_iff.mpr ⟨r, root, .here⟩

theorem attached_iff_parent (valid : f.WellFormed) (named : f.parent? id = some p) :
    f.isAttached id = true ↔ f.isAttached p = true := by
  rw [valid.isAttached_iff, valid.isAttached_iff]
  constructor
  · rintro ⟨r, root, above⟩
    rcases above.cases_parent named with rfl | above
    · exact absurd root (valid.not_root named)
    · exact ⟨r, root, above⟩
  · rintro ⟨r, root, above⟩
    exact ⟨r, root, .under named above⟩

theorem root_of_attached_top (valid : f.WellFormed) (attached : f.isAttached id = true)
    (top : f.parent? id = none) : id ∈ f.roots := by
  obtain ⟨r, root, above⟩ := valid.isAttached_iff.mp attached
  exact above.eq_of_top top ▸ root

theorem attached_known (valid : f.WellFormed) (attached : f.isAttached id = true) :
    id.index < f.size := by
  obtain ⟨r, root, above⟩ := valid.isAttached_iff.mp attached
  cases above with
  | here => exact valid.rootKnown _ root
  | under named _ => exact known_of_parent named

theorem attached_back (valid : g.WellFormed)
    (edges : ∀ x q, g.parent? x = some q → f.isAttached q = true → f.isAttached x = true)
    (roots : ∀ r ∈ g.roots, f.isAttached r = true) (attached : g.isAttached id = true) :
    f.isAttached id = true := by
  obtain ⟨r, root, above⟩ := valid.isAttached_iff.mp attached
  clear attached
  induction above with
  | here => exact roots r root
  | under named _ ih => exact edges _ _ named ih

theorem linksAgree (valid : f.WellFormed) : f.linksAgree = true := by
  simp only [Forest.linksAgree, List.all_eq_true, List.mem_range, Bool.and_eq_true, beq_iff_eq]
  intro i _
  refine ⟨valid.pointsBack ⟨i⟩, ?_⟩
  split
  · next p named =>
    simp only [Bool.and_eq_true, beq_iff_eq, Bool.not_eq_true', List.contains_eq_mem,
      decide_eq_false_iff_not]
    exact ⟨valid.listedOnce p ⟨i⟩ named, valid.not_root named⟩
  · rfl

end WellFormed
end Viewflow.Flow.Forest
