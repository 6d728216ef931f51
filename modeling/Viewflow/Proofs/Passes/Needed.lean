import Viewflow.Proofs.Passes.Asked

namespace Viewflow.Flow.Forest

variable {f g h : Forest} {demand : Demand} {gone : List NodeId} {id p r x : NodeId} {n : Nat}

def Needed (f : Forest) (demand : Demand) (id : NodeId) : Prop :=
  ∃ d, Above f.parent? id d ∧ f.wanted demand d = true

theorem Needed.higher (needed : f.Needed demand id) (above : Above f.parent? x id) :
    f.Needed demand x := by
  obtain ⟨d, below, wanted⟩ := needed
  exact ⟨d, above.trans below, wanted⟩

theorem isDeadLeaf_eq (f : Forest) (demand : Demand) (id : NodeId) :
    f.isDeadLeaf demand id = ((f.parent? id).isSome && !f.wanted demand id) := by
  unfold isDeadLeaf wanted
  cases f.step id <;> rfl

-- Below a root nothing is left but what is needed when there is no dead leaf.
theorem WellFormed.needed_of_clean (valid : f.WellFormed) (clean : f.deadLeaves demand = [])
    (attached : f.isAttached id = true) (placed : f.parent? id = some p) : f.Needed demand id := by
  refine valid.downward (motive := fun id => ∀ p, f.isAttached id = true → f.parent? id = some p →
    f.Needed demand id) (?_) id p attached placed
  intro id ih p attached placed
  cases listing : f.children id with
  | nil =>
    have leaf : id ∈ f.leaves :=
      List.mem_filter.mpr ⟨valid.mem_walkAll_iff.mpr attached, by rw [listing]; rfl⟩
    have alive := List.filter_eq_nil_iff.mp clean id leaf
    rw [isDeadLeaf_eq, placed] at alive
    exact ⟨id, .here, by simpa using alive⟩
  | cons c _ =>
    have listed : c ∈ f.children id := by simp [listing]
    have under := valid.pointsBack id c listed
    have needed := ih c listed id ((valid.attached_iff_parent under).mpr attached) under
    exact needed.higher (.parent under)

-- Some nodes that were of no use are taken out, with all that was below them, and the others stand as
-- they stood.
structure Trimmed (demand : Demand) (f g : Forest) (gone : List NodeId) : Prop where
  relinked : Relinked f g (fun x => if x ∈ gone then none else f.parent? x)
    (fun x => (f.children x).filter (· ∉ gone)) f.roots
  useless : ∀ x ∈ gone, ¬ f.Needed demand x

namespace Trimmed

theorem refl (demand : Demand) (f : Forest) : Trimmed demand f f [] where
  relinked := (Relinked.refl f).congr (by simp) (by simp) rfl
  useless x member := by cases member

variable (trimmed : Trimmed demand f g gone) (valid : f.WellFormed) (valid' : g.WellFormed)
include trimmed

theorem stays (absent : x ∉ gone) : g.parent? x = f.parent? x := by
  rw [trimmed.relinked.parent, if_neg absent]

theorem parent (named : g.parent? x = some p) : x ∉ gone ∧ f.parent? x = some p := by
  rw [trimmed.relinked.parent] at named
  split at named
  · cases named
  · next absent => exact ⟨absent, named⟩

theorem fewer (x : NodeId) : g.parent? x = f.parent? x ∨ g.parent? x = none := by
  rw [trimmed.relinked.parent]
  split
  · exact .inr rfl
  · exact .inl rfl

theorem needed (needed : g.Needed demand x) : f.Needed demand x := by
  obtain ⟨d, above, wanted⟩ := needed
  exact ⟨d, above.of_fewer trimmed.fewer, (wanted_of_step (trimmed.relinked.step d)).symm.trans wanted⟩

theorem absent (needed : f.Needed demand x) : x ∉ gone :=
  fun member => trimmed.useless x member needed

theorem above (needed : f.Needed demand x) (above : Above f.parent? p x) : Above g.parent? p x := by
  induction above with
  | here => exact .here
  | under named _ ih =>
    exact .under ((trimmed.stays (trimmed.absent needed)).trans named)
      (ih (needed.higher (.parent named)))

include valid valid'

theorem drop (spare : g.Spare demand id) (removed : g.remove id = .ok h) :
    Trimmed demand f h (id :: gone) := by
  obtain ⟨p, named⟩ := spare.placed
  obtain ⟨_, cut⟩ := of_ok (valid'.remove named) removed
  have bare := valid'.no_parent_of_childless spare.childless
  refine ⟨(trimmed.relinked.trans cut).congr ?_ ?_ trimmed.relinked.roots, ?_⟩
  · intro x
    by_cases same : x = id
    · simp [same]
    · rw [bypass_of_apart same (bare x), trimmed.relinked.parent]
      simp [same]
  · intro x
    have erased : (g.children x).erase id = (f.children x).filter (· ∉ id :: gone) := by
      rw [valid'.children_nodup.erase_eq_filter, trimmed.relinked.children, List.filter_filter]
      congr 1
      funext c
      grind
    rw [← erased, spare.childless]
    by_cases atParent : x = p
    · simp [atParent]
    · by_cases atNode : x = id
      · subst atNode
        simp [atParent, spare.childless]
      · have apart : id ∉ g.children x := valid'.not_child (by simp [named, Ne.symm atParent])
        simp [atParent, atNode, List.erase_of_not_mem apart]
  · refine List.forall_mem_cons.mpr ⟨?_, trimmed.useless⟩
    rintro ⟨d, above, wanted⟩
    rcases above.cases_child with rfl | ⟨c, under, above⟩
    · have unasked := spare.unasked
      rw [wanted_of_step (trimmed.relinked.step d), wanted] at unasked
      cases unasked
    · have listed := valid.mem_children_iff.mpr under
      have left := trimmed.absent ⟨d, above, wanted⟩
      have still : c ∈ g.children id := by
        rw [trimmed.relinked.children]
        simp [listed, left]
      rw [spare.childless] at still
      cases still

end Trimmed

theorem Drops.trimmed {e : Forest} (drops : Drops demand f n g) (valid : e.WellFormed)
    (valid' : f.WellFormed) (trimmed : Trimmed demand e f gone) :
    ∃ gone', Trimmed demand e g gone' := by
  induction drops generalizing gone with
  | none => exact ⟨gone, trimmed⟩
  | drop spare _ removed _ ih =>
    obtain ⟨p, named⟩ := spare.placed
    obtain ⟨next, _⟩ := of_ok (valid'.remove named) removed
    exact ih next (trimmed.drop valid valid' spare removed)

structure Pruned (demand : Demand) (f g : Forest) : Prop where
  valid : g.WellFormed
  trimmed : ∃ gone, Trimmed demand f g gone
  clean : g.deadLeaves demand = []

theorem WellFormed.removeUnused_parts (valid : f.WellFormed) (demand : Demand) :
    ∃ g n, f.removeUnused demand = .ok (g.pruneEmptyRoots, n) ∧ Pruned demand f g := by
  obtain ⟨g, removed, done, valid', _⟩ := valid.pruneRounds demand (f.size + 1) 0
  have clean := valid.pruneRounds_clean (f.size + 1) 0 removed
    (Nat.lt_succ_of_le valid.walkAll_length) done
  obtain ⟨n, _, drops⟩ := valid.drops_pruneRounds (f.size + 1) 0 removed done
  refine ⟨g, removed + (g.roots.length - g.pruneEmptyRoots.roots.length), ?_, valid',
    drops.trimmed valid valid (.refl demand f), clean⟩
  unfold Forest.removeUnused
  rw [done]
  rfl

namespace Pruned

variable (pruned : Pruned demand f g) (valid : f.WellFormed)
include pruned

theorem roots : g.roots = f.roots := by
  obtain ⟨gone, trimmed⟩ := pruned.trimmed
  exact trimmed.relinked.roots

theorem mem_roots_iff : r ∈ g.pruneEmptyRoots.roots ↔ r ∈ f.roots ∧ ∃ c, g.parent? c = some r := by
  rw [← pruned.valid.exists_child, ← pruned.roots]
  simp [pruneEmptyRoots]

theorem attached (attached : g.pruneEmptyRoots.isAttached id = true) : g.isAttached id = true := by
  obtain ⟨r, root, above⟩ := pruned.valid.pruneEmptyRoots.isAttached_iff.mp attached
  exact pruned.valid.isAttached_iff.mpr ⟨r, List.mem_of_mem_filter root, above⟩

theorem placed_needed (attached : g.isAttached id = true) (named : g.parent? id = some p) :
    f.Needed demand id := by
  obtain ⟨gone, trimmed⟩ := pruned.trimmed
  exact trimmed.needed (pruned.valid.needed_of_clean pruned.clean attached named)

theorem roots_eq : g.pruneEmptyRoots.roots = f.roots.filter g.pruneEmptyRoots.isAttached := by
  have valid' := pruned.valid.pruneEmptyRoots
  rw [← pruned.roots]
  refine List.filter_congr fun r root => ?_
  have top : g.pruneEmptyRoots.parent? r = none := pruned.valid.rootTop r root
  rw [Bool.eq_iff_iff]
  constructor
  · intro full
    exact valid'.attached_of_root (List.mem_filter.mpr ⟨root, full⟩)
  · intro attached
    exact (List.mem_filter.mp (valid'.root_of_attached_top attached top)).2

theorem again : g.pruneEmptyRoots.removeUnused demand = .ok (g.pruneEmptyRoots, 0) := by
  have valid' := pruned.valid.pruneEmptyRoots
  apply WellFormed.removeUnused_of_clean
  · apply List.filter_eq_nil_iff.mpr
    intro id leaf
    obtain ⟨visited, childless⟩ := List.mem_filter.mp leaf
    have attached := pruned.attached (valid'.mem_walkAll_iff.mp visited)
    have listed : id ∈ g.leaves :=
      List.mem_filter.mpr ⟨pruned.valid.mem_walkAll_iff.mpr attached, childless⟩
    exact List.filter_eq_nil_iff.mp pruned.clean id listed
  · intro r root
    exact pruned.valid.exists_child.mpr (pruned.mem_roots_iff.mp root).2

include valid

theorem parent (attached : g.pruneEmptyRoots.isAttached id = true) :
    g.parent? id = f.parent? id := by
  obtain ⟨gone, trimmed⟩ := pruned.trimmed
  rcases trimmed.fewer id with same | top
  · exact same
  · have root := pruned.valid.pruneEmptyRoots.root_of_attached_top attached top
    rw [top, valid.rootTop id (pruned.mem_roots_iff.mp root).1]

theorem attached_iff (attached : f.isAttached id = true) (named : f.parent? id = some p) :
    g.pruneEmptyRoots.isAttached id = true ↔ f.Needed demand id := by
  obtain ⟨gone, trimmed⟩ := pruned.trimmed
  constructor
  · intro still
    exact pruned.placed_needed (pruned.attached still) ((pruned.parent valid still).trans named)
  · intro needed
    obtain ⟨r, root, above⟩ := valid.isAttached_iff.mp attached
    have above' := trimmed.above needed above
    rcases above'.cases_child with rfl | ⟨c, under, _⟩
    · exact absurd root (valid.not_root named)
    · exact pruned.valid.pruneEmptyRoots.isAttached_iff.mpr
        ⟨r, pruned.mem_roots_iff.mpr ⟨root, c, under⟩, above'⟩

theorem root_iff (root : r ∈ f.roots) :
    r ∈ g.pruneEmptyRoots.roots ↔ ∃ d, d ≠ r ∧ Above f.parent? r d ∧ f.wanted demand d = true := by
  obtain ⟨gone, trimmed⟩ := pruned.trimmed
  rw [pruned.mem_roots_iff]
  constructor
  · rintro ⟨_, c, under⟩
    have higher := pruned.valid.attached_of_root (pruned.roots ▸ root)
    obtain ⟨d, above, wanted⟩ :=
      pruned.placed_needed ((pruned.valid.attached_iff_parent under).mpr higher) under
    have under' := (trimmed.parent under).2
    refine ⟨d, ?_, (Above.parent under').trans above, wanted⟩
    rintro rfl
    exact valid.no_return under' above
  · rintro ⟨d, other, above, wanted⟩
    have above' := trimmed.above ⟨d, .here, wanted⟩ above
    rcases above'.cases_child with same | ⟨c, under, _⟩
    · exact absurd same other
    · exact ⟨root, c, under⟩

theorem before (attached : g.pruneEmptyRoots.isAttached id = true) : f.isAttached id = true := by
  obtain ⟨gone, trimmed⟩ := pruned.trimmed
  obtain ⟨r, root, above⟩ := pruned.valid.pruneEmptyRoots.isAttached_iff.mp attached
  exact valid.isAttached_iff.mpr ⟨r, (pruned.mem_roots_iff.mp root).1, above.of_fewer trimmed.fewer⟩

theorem children_eq (attached : g.pruneEmptyRoots.isAttached id = true) :
    g.children id = (f.children id).filter g.pruneEmptyRoots.isAttached := by
  have valid' := pruned.valid.pruneEmptyRoots
  obtain ⟨gone, trimmed⟩ := pruned.trimmed
  rw [trimmed.relinked.children]
  refine List.filter_congr fun c listed => ?_
  have under := valid.pointsBack id c listed
  rw [Bool.eq_iff_iff, decide_eq_true_eq]
  constructor
  · intro left
    have under' : g.pruneEmptyRoots.parent? c = some id := (trimmed.stays left).trans under
    exact (valid'.attached_iff_parent under').mpr attached
  · intro still
    exact (trimmed.parent ((pruned.parent valid still).trans under)).1

end Pruned

-- One call of pruning keeps of what is below a root exactly what is needed, and of the roots those with
-- something needed below them. What is kept does what it did, under the same parent and in the same
-- order, the count is that of the nodes that are no longer attached, and nothing is left to prune. The
-- rounds end by themselves.
theorem removeUnused_keeps_needed (valid : f.WellFormed) (demand : Demand) :
    ∃ g n, f.removeUnused demand = .ok (g, n) ∧ g.WellFormed ∧
      (∀ id, f.isAttached id = true → id ∉ f.roots →
        (g.isAttached id = true ↔
          ∃ d, Above f.parent? id d ∧ f.wanted demand d = true)) ∧
      (∀ r ∈ f.roots, r ∈ g.roots ↔ ∃ d, d ≠ r ∧ Above f.parent? r d ∧ f.wanted demand d = true) ∧
      (∀ id, g.isAttached id = true → f.isAttached id = true ∧ g.parent? id = f.parent? id ∧
        g.children id = (f.children id).filter g.isAttached) ∧
      g.roots = f.roots.filter g.isAttached ∧
      (∀ id, (g.node id).name = (f.node id).name ∧ g.step id = f.step id) ∧
      f.attachedIds.length = g.attachedIds.length + n ∧
      (∀ more, Forest.pruneRounds demand (f.size + 1 + more) f 0 =
        Forest.pruneRounds demand (f.size + 1) f 0) ∧
      g.removeUnused demand = .ok (g, 0) := by
  obtain ⟨g, n, done, pruned⟩ := valid.removeUnused_parts demand
  obtain ⟨gone, trimmed⟩ := pruned.trimmed
  have paid := (valid.moves_removeUnused done).pays valid
  refine ⟨g.pruneEmptyRoots, n, done, pruned.valid.pruneEmptyRoots, ?_, fun r => pruned.root_iff valid,
    ?_, pruned.roots_eq, fun id => ⟨trimmed.relinked.name id, trimmed.relinked.step id⟩,
    by simpa using paid.fewer, valid.pruneRounds_size demand, pruned.again⟩
  · intro id attached inner
    cases named : f.parent? id with
    | none => exact absurd (valid.root_of_attached_top attached named) inner
    | some p => exact pruned.attached_iff valid attached named
  · intro id attached
    exact ⟨pruned.before valid attached, pruned.parent valid attached,
      pruned.children_eq valid attached⟩

-- A filter leads to the one output that was asked for. A formula behind another output goes, and so does
-- a source with nothing but tuple numbers below it.
theorem removeUnused_keeps_needed_filter :
    ∃ (f g : Forest) (n : Nat), f.WellFormed ∧ f.attachedIds.length = 7 ∧
      f.removeUnused (Demand.empty.request "v_main") = .ok (g, n) ∧ n = 4 ∧
      g.attachedIds.length = 3 ∧ g.isAttached ⟨1⟩ = true ∧ (⟨0⟩ : NodeId) ∈ g.roots ∧
      g.removeUnused (Demand.empty.request "v_main") = .ok (g, 0) := by
  have source := WellFormed.empty.addRoot "source" (.source (.named "cars"))
  have filtered := (source.addUnder (p := ⟨0⟩) (by decide) "filter" (.filter "datum.year" .empty)).1
  have main := (filtered.addUnder (p := ⟨1⟩) (by decide) "main" (.output (.fresh "v_main" .main))).1
  have raw := (main.addUnder (p := ⟨0⟩) (by decide) "raw" (.output (.fresh "v_raw" .raw))).1
  have derived := (raw.addUnder (p := ⟨3⟩) (by decide) "formula" (.formula "datum.year" "y")).1
  have other := derived.addRoot "source" (.source (.named "vans"))
  have valid := (other.addUnder (p := ⟨5⟩) (by decide) "identifier" .identifier).1
  obtain ⟨g, n, done, _, inner, roots, _, _, _, counted, _, again⟩ :=
    removeUnused_keeps_needed valid (Demand.empty.request "v_main")
  have four : n = 4 := by
    have counts := congrArg (fun r => r.toOption.map fun r => r.2) done
    exact Option.some.inj (counts.symm.trans (by decide +kernel))
  subst four
  have left : g.attachedIds.length + 4 = 7 := counted.symm.trans (by decide)
  have filter := (inner ⟨1⟩ (by decide) (by decide)).mpr ⟨⟨2⟩, .parent (by decide), by decide⟩
  have root := (roots ⟨0⟩ (by decide)).mpr
    ⟨⟨2⟩, by decide, .under (p := ⟨1⟩) (by decide) (.parent (by decide)), by decide⟩
  exact ⟨_, g, 4, valid, by decide, done, rfl, by omega, filter, root, again⟩

end Viewflow.Flow.Forest
