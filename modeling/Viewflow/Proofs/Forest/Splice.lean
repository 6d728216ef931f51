import Viewflow.Proofs.Forest.Relink

namespace Viewflow.Flow.Forest

variable {f g : Forest} {id p x : NodeId} {ids : List NodeId}

theorem bind_ok {ε α β : Type} (a : α) (k : α → Except ε β) : (Except.ok a >>= k) = k a := rfl

theorem exists_ok {ε α β : Type} {x : Except ε α} {k : α → β} {b : β}
    (same : x.toOption.map k = some b) : ∃ a, x = .ok a ∧ k a = b := by
  cases x with
  | error _ => cases same
  | ok a => exact ⟨a, rfl, Option.some.inj same⟩

theorem of_ok {ε α : Type} {x : Except ε α} {a : α} {holds : α → Prop}
    (some : ∃ b, x = .ok b ∧ holds b) (done : x = .ok a) : holds a := by
  obtain ⟨b, ok, held⟩ := some
  rw [done] at ok
  cases ok
  exact held

namespace WellFormed

-- None of the nodes is above the target, and the moves keep it so.
theorem moveAll (valid : f.WellFormed) (place : p.index < f.size) (distinct : ids.Nodup)
    (known : ∀ i ∈ ids, i.index < f.size) (free : ∀ i ∈ ids, ¬ Above f.parent? i p) :
    ∃ g, f.moveAll ids p = .ok g ∧ g.WellFormed ∧
      Relinked f g (fun x => if x ∈ ids then some p else f.parent? x)
        (fun x => (f.children x).filter (· ∉ ids) ++ if x = p then ids else [])
        (f.roots.filter (· ∉ ids)) := by
  induction ids generalizing f with
  | nil =>
    refine ⟨f, rfl, valid, (Relinked.refl f).congr (?_) (?_) ?_⟩
    · intro x
      simp
    · intro x
      simp [List.filter_eq_self.mpr]
    · simp [List.filter_eq_self.mpr]
  | cons i ids ih =>
    rw [List.nodup_cons] at distinct
    have apart := free i (List.mem_cons_self ..)
    obtain ⟨g, moved, valid', relinked⟩ := valid.setParent (known i (List.mem_cons_self ..)) place
      apart
    have known' : ∀ j ∈ ids, j.index < g.size := fun j member =>
      relinked.size ▸ known j (List.mem_cons_of_mem _ member)
    have free' : ∀ j ∈ ids, ¬ Above g.parent? j p := fun j member above =>
      free j (List.mem_cons_of_mem _ member) (Above.of_put relinked.parent apart above)
    obtain ⟨h, rest, valid'', relinked'⟩ := ih valid' (relinked.size ▸ place) distinct.2 known' free'
    refine ⟨h, ?_, valid'', (relinked.trans relinked').congr (?_) (?_) ?_⟩
    · unfold Forest.moveAll
      rw [List.foldlM_cons, moved]
      exact rest
    · intro x
      rw [relinked.parent]
      by_cases later : x ∈ ids
      · simp [later]
      · by_cases same : x = i <;> simp [later, same]
    · intro x
      rw [relinked.children, List.filter_append, valid.children_nodup.erase_eq_filter,
        List.filter_filter]
      have kept : (f.children x).filter (fun c => decide (c ∉ ids) && c != i) =
          (f.children x).filter (fun c => decide (c ∉ i :: ids)) := by
        congr 1
        funext c
        grind
      rw [kept]
      split
      · simp [distinct.1]
      · simp
    · rw [relinked.roots, List.filter_filter]
      congr 1
      funext r
      grind

theorem children_apart (valid : f.WellFormed) (different : x ≠ id) :
    (f.children x).filter (fun c => decide (c ∉ f.children id)) = f.children x := by
  apply List.filter_eq_self.mpr
  intro c listed
  have absent : c ∉ f.children id :=
    valid.not_child (by simp [valid.pointsBack x c listed, different])
  simp [absent]

theorem roots_apart (valid : f.WellFormed) :
    f.roots.filter (fun r => decide (r ∉ f.children id)) = f.roots := by
  apply List.filter_eq_self.mpr
  intro r root
  have absent : r ∉ f.children id := valid.not_child (by simp [valid.rootTop r root])
  simp [absent]

theorem unhook (valid : f.WellFormed) (named : f.parent? id = some p) :
    ∃ g, f.unhook id p = .ok g ∧ g.WellFormed ∧
      Relinked f g (bypass f.parent? id p)
        (fun x => if x = p then (f.children p).erase id ++ f.children id
          else if x = id then [] else f.children x)
        f.roots := by
  have different := valid.ne_parent named
  have known : ∀ i ∈ f.children id, i.index < f.size := by
    intro i listed
    exact known_of_parent (valid.pointsBack id i listed)
  have free : ∀ i ∈ f.children id, ¬ Above f.parent? i p := by
    intro i listed above
    exact valid.no_return (valid.pointsBack id i listed) (.under named above)
  obtain ⟨g, moved, valid', relinked⟩ :=
    valid.moveAll (valid.parent_known named) valid.children_nodup known free
  obtain ⟨h, detached, valid'', relinked'⟩ := valid'.detach id
  refine ⟨h, ?_, valid'', (relinked.trans relinked').congr ?_ ?_ ?_⟩
  · unfold Forest.unhook
    rw [moved]
    exact detached
  · intro x
    rw [relinked.parent]
    simp only [valid.mem_children_iff, bypass]
  · intro x
    rw [relinked.children]
    by_cases atNode : x = id
    · simp [atNode, different]
    · rw [valid.children_apart atNode]
      by_cases atParent : x = p
      · subst atParent
        simp [List.erase_append_left _ (valid.mem_children_iff.mpr named)]
      · have absent : id ∉ f.children x := valid.not_child (by simp [named, Ne.symm atParent])
        simp [atParent, atNode, List.erase_of_not_mem absent]
  · rw [relinked.roots, valid.roots_apart]
    apply List.filter_eq_self.mpr
    intro r root
    exact bne_iff_ne.mpr fun same => valid.not_root named (same ▸ root)

theorem remove (valid : f.WellFormed) (named : f.parent? id = some p) :
    ∃ g, f.remove id = .ok g ∧ g.WellFormed ∧
      Relinked f g (bypass f.parent? id p)
        (fun x => if x = p then (f.children p).erase id ++ f.children id
          else if x = id then [] else f.children x)
        f.roots := by
  obtain ⟨g, unhooked, rest⟩ := valid.unhook named
  refine ⟨g, ?_, rest⟩
  simp only [Forest.remove, parentOr, named, bind_ok, unhooked]

-- Halfway through an exchange the node stands where its parent did, and the parent on its own with
-- the children of both.
theorem lifted (valid : f.WellFormed) (named : f.parent? id = some p)
    (placed : (f.parent? p).isSome ∨ p ∈ f.roots) :
    ∃ g h, f.unhook id p = .ok g ∧ g.takePlace id p = .ok h ∧ h.WellFormed ∧
      Relinked f h (lift f.parent? id p)
        (fun x => if x = id then [] else if x = p then (f.children p).erase id ++ f.children id
          else (f.children x).replace p id)
        (f.roots.replace p id) := by
  have different := valid.ne_parent named
  have high : f.parent? p ≠ some id := by
    intro under
    exact valid.no_return under (.parent named)
  obtain ⟨g, unhooked, valid', one⟩ := valid.unhook named
  have samePlace : g.parent? p = f.parent? p :=
    (one.parent p).trans (bypass_of_apart (Ne.symm different) high)
  have top : g.parent? id = none := (one.parent id).trans bypass_self
  have childless : g.children id = [] := by simp [one.children, different]
  have known : id.index < g.size := one.size ▸ known_of_parent named
  obtain ⟨h, taken, valid'', two⟩ := valid'.takePlace known top (one.roots ▸ valid.not_root named)
    childless different (by rw [samePlace, one.roots]; exact placed)
  refine ⟨g, h, unhooked, taken, valid'', (one.trans two).congr ?_ ?_ ?_⟩
  · intro x
    rw [samePlace, one.parent]
    by_cases atNode : x = id <;> simp [atNode, lift, bypass]
  · intro x
    rw [one.children]
    by_cases atNode : x = id
    · simp [atNode, different]
    · by_cases atParent : x = p
      · subst atParent
        have own : x ∉ f.children x := valid.not_child fun under => valid.ne_parent under rfl
        have absent : x ∉ (f.children x).erase id ++ f.children id := by
          intro listed
          rcases List.mem_append.mp listed with left | taken
          · exact own (List.mem_of_mem_erase left)
          · exact valid.not_child high taken
        simp [atNode, List.replace_of_not_mem absent]
      · simp [atNode, atParent]
  · rw [one.roots]

theorem swapWithParent (valid : f.WellFormed) (named : f.parent? id = some p)
    (placed : (f.parent? p).isSome ∨ p ∈ f.roots) :
    ∃ g, f.swapWithParent id = .ok g ∧ g.WellFormed ∧
      Relinked f g (exchange f.parent? id p)
        (fun x => if x = id then [p] else if x = p then (f.children p).erase id ++ f.children id
          else (f.children x).replace p id)
        (f.roots.replace p id) := by
  have different := valid.ne_parent named
  obtain ⟨g, h, unhooked, taken, valid', lifted⟩ := valid.lifted named placed
  have top : h.parent? p = none := by simp [lifted.parent, lift, Ne.symm different]
  have loose : p ∉ h.roots := by
    rw [lifted.roots, mem_replace valid.rootsDistinct]
    simp [Ne.symm different]
  -- What is above the node now was above its parent.
  have free : ¬ Above h.parent? p id := by
    intro above
    rw [lifted.parents] at above
    cases above with
    | here => exact different rfl
    | under edge above =>
      have above' := above.of_higher fun x y edge => above_of_lift named edge
      rw [lift_self] at edge
      exact valid.no_return edge above'
  have known : id.index < h.size := lifted.size ▸ known_of_parent named
  have place : p.index < h.size := lifted.size ▸ valid.parent_known named
  obtain ⟨valid'', adopted⟩ := valid'.adopt place known top loose free
  refine ⟨h.adopt p id, ?_, valid'', (lifted.trans adopted).congr ?_ ?_ lifted.roots⟩
  · simp only [Forest.swapWithParent, parentOr, named, bind_ok, unhooked, taken]
    rfl
  · intro x
    rw [lifted.parent]
    by_cases atParent : x = p
    · simp [atParent, exchange, Ne.symm different]
    · simp [atParent, exchange, lift]
  · intro x
    rw [lifted.children]
    by_cases atNode : x = id <;> simp [atNode]

end WellFormed
end Viewflow.Flow.Forest
