import Viewflow.Proofs.Reachable

namespace Viewflow.Flow.Forest

variable {f g : Forest} {a n p x : NodeId} {down : NodeId → List NodeId} {roots : List NodeId}

def Slotted (n p : NodeId) (old new : List NodeId) : Prop :=
  ∃ before after, old = before ++ p :: after ∧ new = before ++ n :: after

structure SameNodes (f g : Forest) : Prop where
  size : g.size = f.size
  name : ∀ x, (g.node x).name = (f.node x).name
  step : ∀ x, g.step x = f.step x

structure HandedOver (f g : Forest) (n p : NodeId) : Prop extends SameNodes f g where
  gathered : g.children p = (f.children p).filter (· != n) ++ f.children n
  moved : ∀ c ∈ f.children n, g.parent? c = some p

structure Spliced (f g : Forest) (n p : NodeId) : Prop extends HandedOver f g n p where
  alone : g.parent? n = none ∧ g.children n = []
  otherParents : ∀ x, x ≠ n → x ∉ f.children n → g.parent? x = f.parent? x
  otherChildren : ∀ x, x ≠ n → x ≠ p → g.children x = f.children x
  roots : g.roots = f.roots

structure Exchanged (f g : Forest) (n p : NodeId) : Prop extends HandedOver f g n p where
  only : g.parent? p = some n ∧ g.children n = [p]
  upper : g.parent? n = f.parent? p
  inner : ∀ q, f.parent? p = some q → Slotted n p (f.children q) (g.children q) ∧ g.roots = f.roots
  root : p ∈ f.roots → Slotted n p f.roots g.roots
  otherParents : ∀ x, x ≠ n → x ≠ p → x ∉ f.children n → g.parent? x = f.parent? x
  otherChildren : ∀ x, x ≠ n → x ≠ p → f.parent? p ≠ some x → g.children x = f.children x
  attached : ∀ x, g.isAttached x = f.isAttached x
  -- what is below the pair, below p alone, and below every other node
  pair : ∀ x, g.isAncestor n x = f.isAncestor p x
  lowered : ∀ x, g.isAncestor p x = (f.isAncestor p x && x != n)
  apart : ∀ a x, a ≠ n → a ≠ p → g.isAncestor a x = f.isAncestor a x

theorem slotted_replace {l : List NodeId} (listed : p ∈ l) (n : NodeId) :
    Slotted n p l (l.replace p n) := by
  obtain ⟨before, after, rfl, fresh⟩ := List.eq_append_cons_of_mem listed
  refine ⟨before, after, rfl, ?_⟩
  rw [List.replace_append_right fresh, List.replace_cons_self]

theorem Relinked.sameNodes {up : NodeId → Option NodeId} (relinked : Relinked f g up down roots) :
    SameNodes f g :=
  ⟨relinked.size, relinked.name, relinked.step⟩

namespace WellFormed

section Swapped

variable (valid : f.WellFormed) (valid' : g.WellFormed) (named : f.parent? n = some p)
  (relinked : Relinked f g (exchange f.parent? n p) down roots)
include valid valid' named relinked

theorem above_swapped_parent : Above g.parent? p x ↔ Above f.parent? p x ∧ x ≠ n := by
  have different := valid.ne_parent named
  have under := valid.under_exchanged named relinked
  by_cases same : x = n
  · have free : ¬ Above g.parent? p x := same ▸ valid'.no_return under
    simp [same, same ▸ free]
  · rw [valid.above_exchanged_of_ne valid' named relinked same (Ne.symm different)]
    simp [same]

theorem above_swapped : Above g.parent? n x ↔ Above f.parent? p x := by
  have different := valid.ne_parent named
  have under := valid.under_exchanged named relinked
  constructor
  · intro above
    rcases above.cases_child with rfl | ⟨c, child, above⟩
    · exact .parent named
    · rw [relinked.parent] at child
      rcases exchange_cases child with ⟨rfl, high⟩ | ⟨rfl, _⟩ | ⟨_, _, ⟨_, same⟩ | ⟨apart, edge⟩⟩
      · exact absurd (.parent named) (valid.no_return high)
      · exact ((valid.above_swapped_parent valid' named relinked).mp above).1
      · exact absurd same different
      · exact absurd edge apart
  · intro above
    by_cases same : x = n
    · exact same ▸ .here
    · exact (Above.parent under).trans
        ((valid.above_swapped_parent valid' named relinked).mpr ⟨above, same⟩)

theorem above_swapped_apart (apart : a ≠ n) (elsewhere : a ≠ p) :
    Above g.parent? a x ↔ Above f.parent? a x := by
  have different := valid.ne_parent named
  have under := valid.under_exchanged named relinked
  by_cases same : x = n
  · subst same
    have atParent := valid.above_exchanged_of_ne valid' named relinked (Ne.symm different) apart
    constructor
    · intro above
      exact .under named (atParent.mp (.under under above))
    · intro above
      rcases above.cases_parent named with here | above
      · exact absurd here apart
      · rcases (atParent.mpr above).cases_parent under with here | above
        · exact absurd here elsewhere
        · exact above
  · exact valid.above_exchanged_of_ne valid' named relinked same apart

end Swapped

theorem handedOver (valid : f.WellFormed) (same : SameNodes f g)
    (gathered : g.children p = (f.children p).erase n ++ f.children n)
    (moved : ∀ c, f.parent? c = some n → g.parent? c = some p) : HandedOver f g n p where
  toSameNodes := same
  gathered := by rw [gathered, valid.children_nodup.erase_eq_filter]
  moved c listed := moved c (valid.pointsBack n c listed)

theorem spliced (valid : f.WellFormed) (named : f.parent? n = some p) :
    ∃ g, f.remove n = .ok g ∧ Spliced f g n p := by
  have different := valid.ne_parent named
  obtain ⟨g, done, _, relinked⟩ := valid.remove named
  have handed : HandedOver f g n p := by
    apply valid.handedOver relinked.sameNodes
    · rw [relinked.children, if_pos rfl]
    · intro c under
      exact (relinked.parent c).trans (bypass_of_under (valid.ne_parent under) under)
  refine ⟨g, done, handed, ⟨?_, ?_⟩, ?_, ?_, relinked.roots⟩
  · exact (relinked.parent n).trans bypass_self
  · simp [relinked.children, different]
  · intro x other apart
    have elsewhere : f.parent? x ≠ some n := fun under => apart (valid.mem_children_iff.mpr under)
    exact (relinked.parent x).trans (bypass_of_apart other elsewhere)
  · intro x other elsewhere
    simp [relinked.children, other, elsewhere]

theorem exchanged_links (valid : f.WellFormed) (named : f.parent? n = some p)
    (placed : (f.parent? p).isSome ∨ p ∈ f.roots) :
    ∃ g, f.swapWithParent n = .ok g ∧ Exchanged f g n p := by
  have different := valid.ne_parent named
  have high : f.parent? p ≠ some n := fun under => valid.no_return under (.parent named)
  obtain ⟨g, done, valid', relinked⟩ := valid.swapWithParent named placed
  have handed : HandedOver f g n p := by
    apply valid.handedOver relinked.sameNodes
    · rw [relinked.children, if_neg (Ne.symm different), if_pos rfl]
    · intro c under
      have other : c ≠ p := fun same => high (same ▸ under)
      exact (relinked.parent c).trans (exchange_of_under (valid.ne_parent under) other under)
  have kept : ∀ x, x ≠ n → x ≠ p → g.children x = (f.children x).replace p n := by
    intro x other elsewhere
    rw [relinked.children, if_neg other, if_neg elsewhere]
  refine ⟨g, done, handed, ⟨?_, ?_⟩, ?_, ?_, ?_, ?_, ?_, ?_, ?_, ?_, ?_⟩
  · exact valid.under_exchanged named relinked
  · simp [relinked.children]
  · exact (relinked.parent n).trans exchange_self
  · intro q upper
    have other : q ≠ n := fun same => high (same ▸ upper)
    rw [kept q other (Ne.symm (valid.ne_parent upper)), relinked.roots,
      List.replace_of_not_mem (valid.not_root upper)]
    exact ⟨slotted_replace (valid.mem_children_iff.mpr upper) n, rfl⟩
  · intro root
    rw [relinked.roots]
    exact slotted_replace root n
  · intro x other elsewhere apart
    have below : f.parent? x ≠ some n := fun under => apart (valid.mem_children_iff.mpr under)
    exact (relinked.parent x).trans (exchange_of_apart other elsewhere below)
  · intro x other elsewhere apart
    rw [kept x other elsewhere, List.replace_of_not_mem (valid.not_child apart)]
  · exact valid.attached_same valid' named relinked
  · intro x
    rw [Bool.eq_iff_iff, valid'.isAncestor_iff, valid.isAncestor_iff]
    exact valid.above_swapped valid' named relinked
  · intro x
    rw [Bool.eq_iff_iff, Bool.and_eq_true, bne_iff_ne, valid'.isAncestor_iff, valid.isAncestor_iff]
    exact valid.above_swapped_parent valid' named relinked
  · intro a x apart elsewhere
    rw [Bool.eq_iff_iff, valid'.isAncestor_iff, valid.isAncestor_iff]
    exact valid.above_swapped_apart valid' named relinked apart elsewhere

-- Two exchanges put the siblings of the node under it, in front of its own children, and leave all else as
-- it was.
theorem swappedTwice (valid : f.WellFormed) (named : f.parent? n = some p)
    (done : f.swapWithParent n = .ok g) :
    ∃ h, g.swapWithParent p = .ok h ∧
      Relinked f h (fun x => if x ≠ n ∧ f.parent? x = some p then some n else f.parent? x)
        (fun x => if x = p then [n] else if x = n then (f.children p).erase n ++ f.children n
          else f.children x)
        f.roots := by
  have different := valid.ne_parent named
  have placed := valid.placed_of_swapped named done
  obtain ⟨valid', one⟩ := of_ok (valid.swapWithParent named placed) done
  have under := valid.under_exchanged named one
  have upper : g.parent? n = f.parent? p := (one.parent n).trans exchange_self
  have placed' : (g.parent? n).isSome ∨ n ∈ g.roots := by
    rw [upper, one.roots, mem_replace valid.rootsDistinct]
    exact placed.imp id fun root => .inl ⟨rfl, root⟩
  obtain ⟨h, done', _, two⟩ := valid'.swapWithParent under placed'
  refine ⟨h, done', (one.trans two).congr ?_ ?_ ?_⟩
  · intro x
    rw [one.parents]
    exact exchange_exchange named different (fun above => valid.ne_parent above rfl) x
  · intro x
    rw [one.children, one.children, one.children]
    by_cases atParent : x = p
    · simp [atParent]
    · by_cases atNode : x = n
      · simp [atNode, different, Ne.symm different]
      · have fresh : n ∉ f.children x := valid.not_child (by simp [named, Ne.symm atParent])
        simp [atParent, atNode, replace_back fresh]
  · rw [one.roots, replace_back (valid.not_root named)]

end WellFormed

def family : Forest :=
  [0, 0, 0, 2, 2, 4].foldl (fun f parent => (f.addUnder ⟨parent⟩ "identifier" .identifier).1)
    (Forest.empty.addRoot "source" (.source (.named "cars"))).1

theorem family_wellFormed : family.WellFormed := by
  have root := WellFormed.empty.addRoot "source" (.source (.named "cars"))
  have left := (root.addUnder (p := ⟨0⟩) (by decide) "identifier" .identifier).1
  have middle := (left.addUnder (p := ⟨0⟩) (by decide) "identifier" .identifier).1
  have right := (middle.addUnder (p := ⟨0⟩) (by decide) "identifier" .identifier).1
  have first := (right.addUnder (p := ⟨2⟩) (by decide) "identifier" .identifier).1
  have second := (first.addUnder (p := ⟨2⟩) (by decide) "identifier" .identifier).1
  exact (second.addUnder (p := ⟨4⟩) (by decide) "identifier" .identifier).1

-- Both rewrites, in every well-formed forest: what they do to the links of the node, of its parent and of
-- its children, and that they leave all others as they are.
theorem rewrites_exact (valid : f.WellFormed) (named : f.parent? n = some p) :
    (∃ g, f.remove n = .ok g ∧ Spliced f g n p) ∧
    ((∃ g, f.swapWithParent n = .ok g) ↔ (f.parent? p).isSome ∨ p ∈ f.roots) ∧
    ∀ g, f.swapWithParent n = .ok g → Exchanged f g n p := by
  refine ⟨valid.spliced named, ⟨?_, ?_⟩, ?_⟩
  · rintro ⟨g, done⟩
    exact valid.placed_of_swapped named done
  · intro placed
    obtain ⟨g, done, _⟩ := valid.exchanged_links named placed
    exact ⟨g, done⟩
  · intro g done
    obtain ⟨g', done', exchanged⟩ := valid.exchanged_links named (valid.placed_of_swapped named done)
    rw [done] at done'
    cases done'
    exact exchanged

theorem rewrites_exact_family :
    family.WellFormed ∧ family.parent? ⟨4⟩ = some ⟨2⟩ ∧
      (∃ g, family.remove ⟨4⟩ = .ok g ∧ g.children ⟨2⟩ = [⟨5⟩, ⟨6⟩] ∧ g.parent? ⟨6⟩ = some ⟨2⟩) ∧
      ∃ g, family.swapWithParent ⟨4⟩ = .ok g ∧ Slotted ⟨4⟩ ⟨2⟩ [⟨1⟩, ⟨2⟩, ⟨3⟩] (g.children ⟨0⟩) ∧
        g.children ⟨4⟩ = [⟨2⟩] ∧ g.children ⟨2⟩ = [⟨5⟩, ⟨6⟩] ∧ g.isAttached ⟨6⟩ = true := by
  have named : family.parent? ⟨4⟩ = some ⟨2⟩ := by decide
  obtain ⟨⟨g, removed, spliced⟩, succeeds, exchanged⟩ := rewrites_exact family_wellFormed named
  obtain ⟨h, swapped⟩ := succeeds.mpr (.inl (by decide))
  have exchanged := exchanged h swapped
  refine ⟨family_wellFormed, named, ⟨g, removed, spliced.gathered.trans (by decide), ?_⟩, h, swapped,
    (exchanged.inner ⟨0⟩ (by decide)).1, exchanged.only.2, exchanged.gathered.trans (by decide), ?_⟩
  · exact spliced.moved ⟨6⟩ (by decide)
  · exact (exchanged.attached ⟨6⟩).trans (by decide)

-- An exchange can always be taken back, and that restores all links exactly where the node had no siblings.
theorem swapWithParent_back (valid : f.WellFormed) (named : f.parent? n = some p)
    (done : f.swapWithParent n = .ok g) :
    ∃ h, g.swapWithParent p = .ok h ∧
      (h.parent? = f.parent? ∧ h.children = f.children ∧ h.roots = f.roots ↔ f.children p = [n]) ∧
      (f.children p = [n] → h = f) := by
  have different := valid.ne_parent named
  obtain ⟨h, back, relinked⟩ := valid.swappedTwice named done
  have restored : f.children p = [n] → h = f := by
    intro only
    apply Relinked.eq (relinked.congr ?_ ?_ rfl)
    · intro x
      have alone : ¬ (x ≠ n ∧ f.parent? x = some p) := by
        rintro ⟨other, beside⟩
        have listed := valid.mem_children_iff.mpr beside
        rw [only, List.mem_singleton] at listed
        exact other listed
      rw [if_neg alone]
    · intro x
      by_cases atParent : x = p
      · rw [if_pos atParent, atParent, only]
      · by_cases atNode : x = n <;> simp [atParent, atNode, only, different]
  refine ⟨h, back, ⟨?_, ?_⟩, restored⟩
  · rintro ⟨_, children, _⟩
    rw [← congrFun children p, relinked.children, if_pos rfl]
  · intro only
    rw [restored only]
    exact ⟨rfl, rfl, rfl⟩

-- The only child can go back; the first of two has its sibling below it then.
theorem swapWithParent_back_family :
    family.WellFormed ∧
      (∃ g, family.swapWithParent ⟨6⟩ = .ok g ∧ g.swapWithParent ⟨4⟩ = .ok family) ∧
      ∃ g h, family.swapWithParent ⟨4⟩ = .ok g ∧ g.swapWithParent ⟨2⟩ = .ok h ∧
        ¬ (h.parent? = family.parent? ∧ h.children = family.children ∧ h.roots = family.roots) := by
  have child : family.parent? ⟨6⟩ = some ⟨4⟩ := by decide
  have first : family.parent? ⟨4⟩ = some ⟨2⟩ := by decide
  obtain ⟨g, swapped, _⟩ := family_wellFormed.swapWithParent child (.inl (by decide))
  obtain ⟨h, back, _, restored⟩ := swapWithParent_back family_wellFormed child swapped
  obtain ⟨g', swapped', _⟩ := family_wellFormed.swapWithParent first (.inl (by decide))
  obtain ⟨h', back', same, _⟩ := swapWithParent_back family_wellFormed first swapped'
  refine ⟨family_wellFormed, ⟨g, swapped, restored (by decide) ▸ back⟩, g', h', swapped', back', ?_⟩
  rw [same]
  decide

end Viewflow.Flow.Forest
