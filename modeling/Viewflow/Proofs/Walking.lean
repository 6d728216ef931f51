import Mathlib.Data.List.Flatten
import Viewflow.Proofs.Reachable

namespace Viewflow.Flow.Forest

variable {f : Forest} {a c id p x : NodeId}

-- The run of a walk to its end: the node on top of the stack is visited and leaves its children there.
inductive Traverses (f : Forest) : List NodeId → List NodeId → Prop where
  | done : Traverses f [] []
  | visit {id : NodeId} {stack visited : List NodeId} :
    Traverses f (f.children id ++ stack) visited → Traverses f (id :: stack) (id :: visited)

theorem ids_sublist {l : List NodeId} (f : Forest) (listed : id ∈ l) :
    (f.tree id).ids.Sublist (l.flatMap fun x => (f.tree x).ids) := by
  have within := (List.singleton_sublist.mpr listed).flatMap fun x => (f.tree x).ids
  rwa [List.flatMap_singleton] at within

namespace WellFormed

-- The nodes below those on the stack are still to be visited, and become fewer with every visit.
theorem traverses (valid : f.WellFormed) (stack : List NodeId) :
    Traverses f stack (stack.flatMap fun id => (f.tree id).ids) := by
  induction left : (stack.flatMap fun id => (f.tree id).ids).length generalizing stack with
  | zero =>
    cases stack with
    | nil => exact .done
    | cons id stack =>
      rw [List.flatMap_cons, valid.ids_tree] at left
      cases left
  | succ n ih =>
    cases stack with
    | nil => cases left
    | cons id stack =>
      rw [List.flatMap_cons, valid.ids_tree, List.cons_append, ← List.flatMap_append] at left ⊢
      exact .visit (ih _ (Nat.succ.inj left))

theorem traverses_walk (valid : f.WellFormed) (known : id.index < f.size) : Traverses f [id] (f.walk id) := by
  have run := valid.traverses [id]
  rwa [List.flatMap_singleton, ← valid.walk_eq known] at run

theorem walk_preorder (valid : f.WellFormed) (known : id.index < f.size) :
    f.walk id = id :: (f.children id).flatMap f.walk := by
  have below : ∀ c ∈ f.children id, f.walk c = (f.tree c).ids := fun c listed =>
    valid.walk_eq (known_of_parent (valid.pointsBack id c listed))
  rw [valid.walk_eq known, valid.ids_tree, List.flatMap_congr below]

theorem mem_walk_iff (valid : f.WellFormed) (known : a.index < f.size) :
    x ∈ f.walk a ↔ f.isAncestor a x = true := by
  rw [valid.walk_eq known, valid.mem_ids_iff, valid.isAncestor_iff]

theorem parent_first (valid : f.WellFormed) (named : f.parent? c = some p) (id : NodeId) :
    Above f.parent? id p → [p, c].Sublist (f.tree id).ids := by
  refine valid.downward (motive := fun id => Above f.parent? id p → [p, c].Sublist (f.tree id).ids) ?_ id
  intro id ih above
  rw [valid.ids_tree]
  rcases above.cases_child with rfl | ⟨d, child, above⟩
  · apply List.Sublist.cons_cons
    rw [List.singleton_sublist, List.mem_flatMap]
    exact ⟨c, valid.mem_children_iff.mpr named, (valid.mem_ids_iff c c).mpr .here⟩
  · have listed := valid.mem_children_iff.mpr child
    apply List.Sublist.cons
    exact (ih d listed above).trans (f.ids_sublist listed)

theorem parent_first_walk (valid : f.WellFormed) (known : id.index < f.size)
    (named : f.parent? c = some p) (visited : p ∈ f.walk id) : [p, c].Sublist (f.walk id) := by
  rw [valid.walk_eq known] at visited ⊢
  exact valid.parent_first named id ((valid.mem_ids_iff id p).mp visited)

theorem parent_first_walkAll (valid : f.WellFormed) (named : f.parent? c = some p)
    (visited : c ∈ f.walkAll) : [p, c].Sublist f.walkAll := by
  rw [valid.mem_walkAll_iff, valid.attached_iff_parent named, valid.isAttached_iff] at visited
  obtain ⟨r, root, above⟩ := visited
  rw [valid.walkAll_eq]
  exact (valid.parent_first named r above).trans (f.ids_sublist root)

theorem mem_leaves_iff (valid : f.WellFormed) :
    x ∈ f.leaves ↔ f.isAttached x = true ∧ f.children x = [] := by
  rw [leaves, List.mem_filter, valid.mem_walkAll_iff, List.isEmpty_iff]

end WellFormed

-- Whatever was requested, climbing and walking come to an end and agree on what is attached and on what is
-- below what.
theorem reached_walks (reached : Reached f) :
    (∀ id, Line f.parent? id (f.lineage id)) ∧
    (∀ id, id.index < f.size → Traverses f [id] (f.walk id) ∧
      f.walk id = id :: (f.children id).flatMap f.walk) ∧
    (∀ r ∈ f.roots, Traverses f [r] (f.walk r)) ∧
    (∀ x, x ∈ f.walkAll ↔ f.isAttached x = true) ∧
    f.walkAll.Nodup ∧
    (∀ c p, f.parent? c = some p → c ∈ f.walkAll → [p, c].Sublist f.walkAll) ∧
    (∀ id c p, id.index < f.size → f.parent? c = some p → p ∈ f.walk id →
      [p, c].Sublist (f.walk id)) ∧
    (∀ a n, a.index < f.size → (f.isAncestor a n = true ↔ n ∈ f.walk a)) ∧
    (∀ x, x ∈ f.leaves ↔ f.isAttached x = true ∧ f.children x = []) := by
  have valid := reached.wellFormed
  refine ⟨valid.lineage_line, fun id known => ⟨valid.traverses_walk known, valid.walk_preorder known⟩,
    fun r root => valid.traverses_walk (valid.rootKnown r root), fun x => valid.mem_walkAll_iff,
    valid.walkAll_nodup, ?_, ?_, ?_, ?_⟩
  · intro c p named visited
    exact valid.parent_first_walkAll named visited
  · intro id c p known named visited
    exact valid.parent_first_walk known named visited
  · intro a n known
    exact (valid.mem_walk_iff known).symm
  · intro x
    exact valid.mem_leaves_iff

-- A node that was spliced out is met by no walk but its own, and its children are met in its place.
theorem reached_walks_removed :
    ∃ f, Reached f ∧ f.walkAll = [⟨0⟩, ⟨2⟩, ⟨3⟩] ∧ f.isAttached ⟨3⟩ = true ∧ f.isAttached ⟨1⟩ = false ∧
      [⟨0⟩, ⟨3⟩].Sublist f.walkAll ∧ ⟨3⟩ ∈ f.walk ⟨0⟩ ∧ ⟨3⟩ ∉ f.walk ⟨1⟩ := by
  have root : Reached _ := @Reached.step _ _ (.addRoot "source" (.source (.named "cars"))) .empty rfl
  have inner : Reached _ := @Reached.step _ _ (.addUnder ⟨0⟩ "identifier" .identifier) root rfl
  have first : Reached _ := @Reached.step _ _ (.addUnder ⟨1⟩ "identifier" .identifier) inner rfl
  have second : Reached _ := @Reached.step _ _ (.addUnder ⟨1⟩ "identifier" .identifier) first rfl
  have removed : Reached _ := @Reached.step _ _ (.remove ⟨1⟩) second rfl
  obtain ⟨_, _, _, attached, _, order, _, below, _⟩ := reached_walks removed
  refine ⟨_, removed, rfl, (attached ⟨3⟩).mp (by decide), ?_, order ⟨3⟩ ⟨0⟩ rfl (by decide),
    (below ⟨0⟩ ⟨3⟩ (by decide)).mp rfl, ?_⟩
  · rw [Bool.eq_false_iff, ne_eq, ← attached]
    decide
  · rw [← below ⟨1⟩ ⟨3⟩ (by decide)]
    decide

end Viewflow.Flow.Forest
