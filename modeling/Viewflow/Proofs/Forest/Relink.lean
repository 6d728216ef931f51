import Viewflow.Flow.Edit
import Viewflow.Proofs.Forest.WellFormed

namespace Viewflow.Flow.Forest

variable {f g h : Forest} {a b c id other p q x : NodeId} {l : List NodeId}
  {up up' : NodeId → Option NodeId} {down down' : NodeId → List NodeId} {roots roots' : List NodeId}

theorem mem_replace (distinct : l.Nodup) :
    c ∈ l.replace a b ↔ (c = b ∧ a ∈ l) ∨ (c ≠ a ∧ c ∈ l) := by
  induction l with
  | nil => simp
  | cons d l ih => grind

theorem nodup_replace (distinct : l.Nodup) (fresh : b ∉ l) : (l.replace a b).Nodup := by
  induction l with
  | nil => simp
  | cons d l ih => grind [mem_replace]

theorem replace_back (fresh : b ∉ l) (a : NodeId) : (l.replace a b).replace b a = l := by
  induction l with
  | nil => rfl
  | cons d l ih =>
    simp only [List.mem_cons, not_or] at fresh
    by_cases same : d = a
    · rw [same, List.replace_cons_self, List.replace_cons_self]
    · have other : (a == d) = false := beq_false_of_ne (Ne.symm same)
      have behind : (b == d) = false := beq_false_of_ne fresh.1
      simp only [List.replace_cons, other, behind, ih fresh.2]

theorem eq_of_nodes (size : g.size = f.size) (same : ∀ x, g.node x = f.node x)
    (roots : g.roots = f.roots) : g = f := by
  have nodes : g.nodes = f.nodes := by
    apply Array.ext size
    intro i here there
    have entry := same ⟨i⟩
    unfold node at entry
    simpa [Array.getD_eq_getD_getElem?, here, there] using entry
  cases f
  cases g
  cases nodes
  cases roots
  rfl

structure Relinked (f g : Forest) (up : NodeId → Option NodeId) (down : NodeId → List NodeId)
    (roots : List NodeId) : Prop where
  size : g.size = f.size
  name : ∀ x, (g.node x).name = (f.node x).name
  step : ∀ x, g.step x = f.step x
  parent : ∀ x, g.parent? x = up x
  children : ∀ x, g.children x = down x
  roots : g.roots = roots

theorem Relinked.refl (f : Forest) : Relinked f f f.parent? f.children f.roots :=
  ⟨rfl, fun _ => rfl, fun _ => rfl, fun _ => rfl, fun _ => rfl, rfl⟩

theorem Relinked.trans (one : Relinked f g up down roots) (two : Relinked g h up' down' roots') :
    Relinked f h up' down' roots' where
  size := two.size.trans one.size
  name x := (two.name x).trans (one.name x)
  step x := (two.step x).trans (one.step x)
  parent := two.parent
  children := two.children
  roots := two.roots

theorem Relinked.congr (relinked : Relinked f g up down roots) (sameUp : ∀ x, up x = up' x)
    (sameDown : ∀ x, down x = down' x) (sameRoots : roots = roots') :
    Relinked f g up' down' roots' where
  size := relinked.size
  name := relinked.name
  step := relinked.step
  parent x := (relinked.parent x).trans (sameUp x)
  children x := (relinked.children x).trans (sameDown x)
  roots := relinked.roots.trans sameRoots

theorem Relinked.parents (relinked : Relinked f g up down roots) : g.parent? = up :=
  funext relinked.parent

theorem Relinked.steps (relinked : Relinked f g up down roots) : g.step = f.step :=
  funext relinked.step

theorem Relinked.eq (relinked : Relinked f g f.parent? f.children f.roots) : g = f := by
  apply eq_of_nodes relinked.size (?_) relinked.roots
  intro x
  calc g.node x
    _ = ⟨(g.node x).name, g.parent? x, g.children x, g.step x⟩ := rfl
    _ = ⟨(f.node x).name, f.parent? x, f.children x, f.step x⟩ := by
      rw [relinked.name, relinked.parent, relinked.children, relinked.step]
    _ = f.node x := rfl

theorem putParent_relinked (known : id.index < f.size) (q : Option NodeId) :
    Relinked f (f.putParent id q) (fun x => if x = id then q else f.parent? x) f.children
      f.roots where
  size := size_modify ..
  name x := by simp only [putParent, node_modify f id x _ known]; split <;> simp_all
  step x := by simp only [step, putParent, node_modify f id x _ known]; split <;> simp_all
  parent x := by simp only [parent?, putParent, node_modify f id x _ known]; split <;> rfl
  children x := by simp only [children, putParent, node_modify f id x _ known]; split <;> simp_all
  roots := rfl

theorem putChildren_relinked (known : id.index < f.size) (change : List NodeId → List NodeId) :
    Relinked f (f.putChildren id change) f.parent?
      (fun x => if x = id then change (f.children id) else f.children x) f.roots where
  size := size_modify ..
  name x := by simp only [putChildren, node_modify f id x _ known]; split <;> simp_all
  step x := by simp only [step, putChildren, node_modify f id x _ known]; split <;> simp_all
  parent x := by simp only [parent?, putChildren, node_modify f id x _ known]; split <;> simp_all
  children x := by simp only [children, putChildren, node_modify f id x _ known]; split <;> rfl
  roots := rfl

theorem adopt_relinked (known : id.index < f.size) (place : p.index < f.size) :
    Relinked f (f.adopt id p) (fun x => if x = id then some p else f.parent? x)
      (fun x => f.children x ++ if x = p then [id] else []) f.roots := by
  have named := putParent_relinked known (some p)
  refine (named.trans (putChildren_relinked (named.size ▸ place) (· ++ [id]))).congr
    named.parent ?_ named.roots
  intro x
  simp only [named.children]
  by_cases here : x = p <;> simp [here]

theorem Relinked.wellFormed (relinked : Relinked f g up down roots)
    (mem : ∀ p c, c ∈ down p ↔ up c = some p) (distinct : ∀ p, (down p).Nodup)
    (rootKnown : ∀ r ∈ roots, r.index < f.size) (rootTop : ∀ r ∈ roots, up r = none)
    (rootsDistinct : roots.Nodup) (ends : ∀ x, Ends up x) : g.WellFormed := by
  have sameUp := relinked.parents
  have sameDown : g.children = down := funext relinked.children
  have sameRoots := relinked.roots
  subst sameUp sameDown sameRoots
  refine ⟨?_, ?_, ?_, rootTop, rootsDistinct, ends⟩
  · intro p c listed
    exact (mem p c).mp listed
  · intro p c named
    simp [(distinct p).count, (mem p c).mpr named]
  · intro r root
    have known := rootKnown r root
    have size := relinked.size
    omega

namespace WellFormed

theorem not_child (valid : f.WellFormed) (elsewhere : f.parent? id ≠ some p) :
    id ∉ f.children p := by
  intro listed
  exact elsewhere (valid.pointsBack p id listed)

theorem detach_relinked (valid : f.WellFormed) (id : NodeId) :
    ∃ g, f.detach id = .ok g ∧
      Relinked f g (fun x => if x = id then none else f.parent? x)
        (fun x => (f.children x).erase id) (f.roots.filter (· != id)) := by
  unfold Forest.detach
  cases named : f.parent? id with
  | none =>
    refine ⟨_, rfl, rfl, fun _ => rfl, fun _ => rfl, ?_, ?_, rfl⟩
    · intro x
      change f.parent? x = _
      by_cases same : x = id <;> simp [same, named]
    · intro x
      change f.children x = _
      have absent : id ∉ f.children x := valid.not_child (by simp [named])
      rw [List.erase_of_not_mem absent]
  | some old =>
    have listed := valid.mem_children_iff.mpr named
    have dropped := putChildren_relinked (known_of_child listed) (·.erase id)
    have known : id.index < (f.putChildren old (·.erase id)).size :=
      dropped.size ▸ known_of_parent named
    refine ⟨_, if_pos listed, (dropped.trans (putParent_relinked known none)).congr ?_ ?_ ?_⟩
    · intro x
      simp only [dropped.parent]
    · intro x
      rw [dropped.children]
      by_cases here : x = old
      · simp [here]
      · have absent : id ∉ f.children x := valid.not_child (by simp [named, Ne.symm here])
        rw [if_neg here, List.erase_of_not_mem absent]
    · rw [dropped.roots, List.filter_eq_self.mpr]
      intro r root
      exact bne_iff_ne.mpr fun same => valid.not_root named (same ▸ root)

theorem detach (valid : f.WellFormed) (id : NodeId) :
    ∃ g, f.detach id = .ok g ∧ g.WellFormed ∧
      Relinked f g (fun x => if x = id then none else f.parent? x)
        (fun x => (f.children x).erase id) (f.roots.filter (· != id)) := by
  obtain ⟨g, done, relinked⟩ := valid.detach_relinked id
  refine ⟨g, done, relinked.wellFormed ?_ ?_ ?_ ?_ ?_ ?_, relinked⟩
  · intro p c
    rw [valid.children_nodup.mem_erase_iff, valid.mem_children_iff]
    by_cases same : c = id <;> simp [same]
  · intro p
    exact valid.children_nodup.erase id
  · intro r root
    exact valid.rootKnown r (List.mem_filter.mp root).1
  · intro r root
    obtain ⟨listed, other⟩ := List.mem_filter.mp root
    rw [if_neg (bne_iff_ne.mp other)]
    exact valid.rootTop r listed
  · exact valid.rootsDistinct.filter _
  · intro x
    exact (valid.ends x).without id

theorem adopt (valid : f.WellFormed) (known : id.index < f.size) (place : p.index < f.size)
    (top : f.parent? id = none) (loose : id ∉ f.roots) (free : ¬ Above f.parent? id p) :
    (f.adopt id p).WellFormed ∧
      Relinked f (f.adopt id p) (fun x => if x = id then some p else f.parent? x)
        (fun x => f.children x ++ if x = p then [id] else []) f.roots := by
  have relinked := adopt_relinked known place
  refine ⟨relinked.wellFormed ?_ ?_ valid.rootKnown ?_ valid.rootsDistinct ?_, relinked⟩
  · intro q c
    rw [List.mem_append, valid.mem_children_iff]
    by_cases same : c = id
    · subst same
      by_cases here : q = p
      · simp [here]
      · simp [top, here, Ne.symm here]
    · by_cases here : q = p <;> simp [same, here]
  · intro q
    by_cases here : q = p
    · have absent : id ∉ f.children q := valid.not_child (by simp [top])
      simpa [here] using Distinct.append_one_nodup _ _ valid.children_nodup (here ▸ absent)
    · simpa [here] using valid.children_nodup
  · intro r root
    have other : r ≠ id := fun same => loose (same ▸ root)
    simp [other, valid.rootTop r root]
  · exact Ends.of_put (fun _ => rfl) valid.ends free

theorem no_parent_of_childless (valid : f.WellFormed) (childless : f.children a = [])
    (x : NodeId) : f.parent? x ≠ some a := by
  intro named
  rw [← valid.mem_children_iff, childless] at named
  cases named

theorem eq_of_above_childless (valid : f.WellFormed) (childless : f.children a = [])
    (above : Above f.parent? a id) : id = a :=
  above.eq_of_unused (valid.no_parent_of_childless childless)

theorem takePlace_relinked (valid : f.WellFormed) (known : id.index < f.size)
    (top : f.parent? id = none) (different : id ≠ other)
    (placed : (f.parent? other).isSome ∨ other ∈ f.roots) :
    ∃ g, f.takePlace id other = .ok g ∧
      Relinked f g
        (fun x => if x = id then f.parent? other else if x = other then none else f.parent? x)
        (fun x => (f.children x).replace other id) (f.roots.replace other id) := by
  unfold Forest.takePlace
  cases named : f.parent? other with
  | none =>
    have root : other ∈ f.roots := by simpa [named] using placed
    refine ⟨_, if_pos root, rfl, fun _ => rfl, fun _ => rfl, ?_, ?_, rfl⟩
    · intro x
      change f.parent? x = _
      by_cases same : x = id
      · simp [same, top]
      · by_cases there : x = other <;> simp [same, there, named]
    · intro x
      change f.children x = _
      have absent : other ∉ f.children x := valid.not_child (by simp [named])
      rw [List.replace_of_not_mem absent]
  | some above =>
    have listed := valid.mem_children_iff.mpr named
    have first := putChildren_relinked (known_of_child listed) (·.replace other id)
    have second := putParent_relinked (first.size ▸ known) (some above)
    have third := putParent_relinked (second.size ▸ first.size ▸ known_of_parent named) none
    refine ⟨_, if_pos listed, ((first.trans second).trans third).congr ?_ ?_ ?_⟩
    · intro x
      simp only [second.parent, first.parent]
      by_cases same : x = id
      · simp [same, different]
      · simp [same]
    · intro x
      rw [second.children, first.children]
      by_cases here : x = above
      · simp [here]
      · have absent : other ∉ f.children x := valid.not_child (by simp [named, Ne.symm here])
        rw [if_neg here, List.replace_of_not_mem absent]
    · rw [second.roots, first.roots, List.replace_of_not_mem (valid.not_root named)]

theorem takePlace (valid : f.WellFormed) (known : id.index < f.size) (top : f.parent? id = none)
    (loose : id ∉ f.roots) (childless : f.children id = []) (different : id ≠ other)
    (placed : (f.parent? other).isSome ∨ other ∈ f.roots) :
    ∃ g, f.takePlace id other = .ok g ∧ g.WellFormed ∧
      Relinked f g
        (fun x => if x = id then f.parent? other else if x = other then none else f.parent? x)
        (fun x => (f.children x).replace other id) (f.roots.replace other id) := by
  obtain ⟨g, done, relinked⟩ := valid.takePlace_relinked known top different placed
  refine ⟨g, done, relinked.wellFormed ?_ ?_ ?_ ?_ ?_ ?_, relinked⟩
  · intro q c
    rw [mem_replace valid.children_nodup, valid.mem_children_iff, valid.mem_children_iff]
    by_cases same : c = id
    · simp [same, top]
    · by_cases there : c = other <;> simp [same, there, Ne.symm different]
  · intro q
    exact nodup_replace valid.children_nodup (valid.not_child (by simp [top]))
  · intro r root
    rcases (mem_replace valid.rootsDistinct).mp root with ⟨rfl, _⟩ | ⟨_, old⟩
    · exact known
    · exact valid.rootKnown r old
  · intro r root
    rcases (mem_replace valid.rootsDistinct).mp root with ⟨rfl, old⟩ | ⟨_, old⟩
    · simp [valid.rootTop other old]
    · have elsewhere : r ≠ id := fun same => loose (same ▸ old)
      simp [elsewhere, valid.rootTop r old]
  · exact nodup_replace valid.rootsDistinct loose
  · exact Ends.of_taken valid.ends (valid.no_parent_of_childless childless)

theorem setParent (valid : f.WellFormed) (known : id.index < f.size) (place : p.index < f.size)
    (free : ¬ Above f.parent? id p) :
    ∃ g, f.setParent id p = .ok g ∧ g.WellFormed ∧
      Relinked f g (fun x => if x = id then some p else f.parent? x)
        (fun x => (f.children x).erase id ++ if x = p then [id] else [])
        (f.roots.filter (· != id)) := by
  obtain ⟨g, done, valid', relinked⟩ := valid.detach id
  have fewer : ∀ x, g.parent? x = f.parent? x ∨ g.parent? x = none := by
    intro x
    rw [relinked.parent]
    by_cases same : x = id <;> simp [same]
  have top : g.parent? id = none := by simp [relinked.parent]
  have loose : id ∉ g.roots := by simp [relinked.roots]
  have free' : ¬ Above g.parent? id p := by
    intro above
    exact free (above.of_fewer fewer)
  obtain ⟨valid'', relinked'⟩ :=
    valid'.adopt (relinked.size ▸ known) (relinked.size ▸ place) top loose free'
  refine ⟨g.adopt id p, ?_, valid'', (relinked.trans relinked').congr ?_ ?_ relinked.roots⟩
  · unfold Forest.setParent
    rw [if_neg fun above => free (valid.isAncestor_iff.mp above), done]
    rfl
  · intro x
    rw [relinked.parent]
    by_cases same : x = id <;> simp [same]
  · intro x
    rw [relinked.children]

end WellFormed
end Viewflow.Flow.Forest
