import Viewflow.Flow.Prune
import Viewflow.Proofs.Forest.Descent
import Viewflow.Proofs.Forest.Growth
import Viewflow.Proofs.Passes.Settled

namespace Viewflow.Flow.Forest

variable {f g : Forest} {demand : Demand} {id p x : NodeId} {ids : List NodeId}

structure Spare (f : Forest) (demand : Demand) (id : NodeId) : Prop where
  placed : ∃ p, f.parent? id = some p
  childless : f.children id = []
  unwanted : ∀ b, f.step id = .output b → demand.isRequired b.name = false

theorem Spare.not_delivers (spare : f.Spare demand id) : ¬ f.Delivers demand id := by
  intro delivers
  obtain ⟨b, output, required⟩ := delivers.wanted
  rw [spare.unwanted b output] at required
  cases required

theorem spare_of_mem_deadLeaves (dead : id ∈ f.deadLeaves demand) : f.Spare demand id := by
  unfold deadLeaves at dead
  rw [List.mem_filter, leaves, List.mem_filter] at dead
  obtain ⟨⟨_, childless⟩, dead⟩ := dead
  unfold isDeadLeaf at dead
  rw [Bool.and_eq_true] at dead
  refine ⟨Option.isSome_iff_exists.mp dead.1, List.isEmpty_iff.mp childless, ?_⟩
  intro b output
  have unwanted := dead.2
  rw [output] at unwanted
  simpa using unwanted

theorem Spare.still (spare : f.Spare demand id) (later : f.Spare demand x) (valid : f.WellFormed)
    (named : f.parent? id = some p)
    (relinked : Relinked f g (bypass f.parent? id p)
      (fun x => if x = p then (f.children p).erase id ++ f.children id
        else if x = id then [] else f.children x) f.roots)
    (other : x ≠ id) : g.Spare demand x := by
  have listed := valid.mem_children_iff.mpr named
  have elsewhere : x ≠ p := by
    rintro rfl
    rw [later.childless] at listed
    cases listed
  obtain ⟨q, named'⟩ := later.placed
  refine ⟨⟨q, ?_⟩, ?_, ?_⟩
  · have above := valid.no_parent_of_childless spare.childless x
    rw [relinked.parent, bypass_of_apart other above, named']
  · rw [relinked.children, if_neg elsewhere, if_neg other, later.childless]
  · intro b output
    exact later.unwanted b ((relinked.step x).symm.trans output)

namespace WellFormed

theorem deadLeaves_nodup (valid : f.WellFormed) (demand : Demand) : (f.deadLeaves demand).Nodup :=
  (valid.walkAll_nodup.filter _).filter _

theorem removeAll (valid : f.WellFormed) (distinct : ids.Nodup)
    (spare : ∀ id ∈ ids, f.Spare demand id) :
    ∃ g, f.removeAll ids = .ok g ∧ g.WellFormed ∧ Carries everyStep demand f g ∧ Thinned f g ∧
      ∀ id ∈ ids, g.isAttached id = false := by
  induction ids generalizing f with
  | nil => exact ⟨f, rfl, valid, .refl everyStep demand f, .refl f, by simp⟩
  | cons id ids ih =>
    rw [List.nodup_cons] at distinct
    have first := spare id (List.mem_cons_self ..)
    obtain ⟨p, named⟩ := first.placed
    obtain ⟨g, removed, valid', relinked⟩ := valid.remove named
    have carried : Carries everyStep demand f g :=
      valid.carries_removed valid' named relinked first.not_delivers (.inl first.childless)
    have thinned := thinned_removed first.childless valid relinked
    have spare' : ∀ x ∈ ids, g.Spare demand x := by
      intro x member
      exact first.still (spare x (List.mem_cons_of_mem _ member)) valid named relinked
        fun same => distinct.1 (same ▸ member)
    obtain ⟨h, rest, valid'', carried', thinned', gone⟩ := ih valid' distinct.2 spare'
    refine ⟨h, ?_, valid'', carried.trans carried', thinned.trans thinned', ?_⟩
    · unfold Forest.removeAll
      rw [List.foldlM_cons, removed]
      exact rest
    · intro x member
      rcases List.mem_cons.mp member with rfl | later
      · rw [Bool.eq_false_iff]
        intro attached
        have top : g.parent? x = none := (relinked.parent x).trans bypass_self
        have root := valid'.root_of_attached_top (thinned'.attached valid' valid'' attached) top
        exact valid.not_root named (relinked.roots ▸ root)
      · exact gone x later

theorem pruneRounds (valid : f.WellFormed) (demand : Demand) (fuel removed : Nat) :
    ∃ g n, Forest.pruneRounds demand fuel f removed = .ok (g, n) ∧ g.WellFormed ∧
      Carries everyStep demand f g ∧ Thinned f g := by
  induction fuel generalizing f removed with
  | zero => exact ⟨f, removed, rfl, valid, .refl everyStep demand f, .refl f⟩
  | succ fuel ih =>
    by_cases done : (f.deadLeaves demand).isEmpty = true
    · refine ⟨f, removed, ?_, valid, .refl everyStep demand f, .refl f⟩
      unfold Forest.pruneRounds
      rw [if_pos done]
      rfl
    · obtain ⟨g, gone, valid', carried, thinned, _⟩ := valid.removeAll (valid.deadLeaves_nodup demand)
        fun id => spare_of_mem_deadLeaves
      obtain ⟨h, n, rest, valid'', carried', thinned'⟩ :=
        ih valid' (removed + (f.deadLeaves demand).length)
      refine ⟨h, n, ?_, valid'', carried.trans carried', thinned.trans thinned'⟩
      unfold Forest.pruneRounds
      rw [if_neg done]
      simp only [gone, bind_ok]
      exact rest

-- Every round but the last detaches a node that was attached.
theorem removeAll_shorter (valid : f.WellFormed) (valid' : g.WellFormed) (thinned : Thinned f g)
    (listed : id ∈ f.walkAll) (gone : g.isAttached id = false) :
    g.walkAll.length < f.walkAll.length := by
  have within : g.walkAll ⊆ f.walkAll.erase id := by
    intro x member
    have attached := valid'.mem_walkAll_iff.mp member
    rw [valid.walkAll_nodup.mem_erase_iff, valid.mem_walkAll_iff]
    refine ⟨?_, thinned.attached valid valid' attached⟩
    rintro rfl
    simp [gone] at attached
  have bound := valid'.walkAll_nodup.length_le_of_subset within
  have some := List.length_pos_of_mem listed
  rw [List.length_erase_of_mem listed] at bound
  omega

theorem pruneRounds_enough (valid : f.WellFormed) (demand : Demand) (fuel more removed : Nat)
    (enough : f.walkAll.length < fuel) :
    Forest.pruneRounds demand (fuel + more) f removed = Forest.pruneRounds demand fuel f removed := by
  induction fuel generalizing f removed with
  | zero => omega
  | succ fuel ih =>
    rw [Nat.add_right_comm]
    unfold Forest.pruneRounds
    cases dead : f.deadLeaves demand with
    | nil => rfl
    | cons id rest =>
      obtain ⟨g, removes, valid', _, thinned, gone⟩ :=
        valid.removeAll (valid.deadLeaves_nodup demand) fun id => spare_of_mem_deadLeaves
      have listed : id ∈ f.deadLeaves demand := by simp [dead]
      have met : id ∈ f.walkAll := List.mem_of_mem_filter (List.mem_of_mem_filter listed)
      have shorter := valid.removeAll_shorter valid' thinned met (gone id listed)
      rw [dead] at removes
      simp only [List.isEmpty_cons, Bool.false_eq_true, if_false, removes, bind_ok]
      exact ih valid' _ (by omega)

theorem pruneRounds_size (valid : f.WellFormed) (demand : Demand) (more : Nat) :
    Forest.pruneRounds demand (f.size + 1 + more) f 0 =
      Forest.pruneRounds demand (f.size + 1) f 0 :=
  valid.pruneRounds_enough demand (f.size + 1) more 0 (Nat.lt_succ_of_le valid.walkAll_length)

theorem pruneRounds_clean (valid : f.WellFormed) (fuel removed n : Nat)
    (enough : f.walkAll.length < fuel)
    (done : Forest.pruneRounds demand fuel f removed = .ok (g, n)) : g.deadLeaves demand = [] := by
  induction fuel generalizing f removed with
  | zero => omega
  | succ fuel ih =>
    unfold Forest.pruneRounds at done
    cases dead : f.deadLeaves demand with
    | nil =>
      rw [dead] at done
      cases done
      exact dead
    | cons id rest =>
      obtain ⟨h, removes, valid', _, thinned, gone⟩ :=
        valid.removeAll (valid.deadLeaves_nodup demand) fun id => spare_of_mem_deadLeaves
      have listed : id ∈ f.deadLeaves demand := by simp [dead]
      have met : id ∈ f.walkAll := List.mem_of_mem_filter (List.mem_of_mem_filter listed)
      have shorter := valid.removeAll_shorter valid' thinned met (gone id listed)
      rw [dead] at removes
      simp only [dead, List.isEmpty_cons, Bool.false_eq_true, if_false, removes, bind_ok] at done
      exact ih valid' _ (by omega) done

theorem carries_pruneEmptyRoots (valid : f.WellFormed) :
    Carries everyStep demand f f.pruneEmptyRoots := by
  have valid' := valid.pruneEmptyRoots
  have lineage : ∀ x, f.pruneEmptyRoots.lineage x = f.lineage x := fun x =>
    valid'.lineage_of_line (valid.lineage_line x)
  refine ⟨fun x delivers => ⟨delivers.wanted, delivers.placed, ?_⟩, fun _ _ => rfl,
    fun x _ _ => ⟨?_, rfl⟩, ?_⟩
  · obtain ⟨r, root, above⟩ := valid.isAttached_iff.mp delivers.attached
    refine valid'.isAttached_iff.mpr ⟨r, List.mem_filter.mpr ⟨root, ?_⟩, above⟩
    rcases above.cases_child with same | ⟨c, child, _⟩
    · have placed := delivers.placed
      rw [same, valid.rootTop r root] at placed
      cases placed
    · have listed := valid.mem_children_iff.mpr child
      cases listing : f.children r with
      | nil => rw [listing] at listed; cases listed
      | cons _ _ => rfl
  · rw [top, top, lineage]
  · intro x _
    rw [route, route, lineage]
    exact .refl _

theorem removeUnused_of_clean (clean : f.deadLeaves demand = [])
    (full : ∀ r ∈ f.roots, f.children r ≠ []) : f.removeUnused demand = .ok (f, 0) := by
  have pruned : Forest.pruneRounds demand (f.size + 1) f 0 = .ok (f, 0) := by
    unfold Forest.pruneRounds
    rw [clean]
    rfl
  have same : f.pruneEmptyRoots = f := by
    have all : (f.roots.filter fun r => !(f.children r).isEmpty) = f.roots := by
      apply List.filter_eq_self.mpr
      intro r root
      simpa using full r root
    unfold Forest.pruneEmptyRoots
    rw [all]
  unfold Forest.removeUnused
  simp only [pruned, bind_ok, same, Nat.sub_self, Nat.add_zero]
  rfl

theorem removeUnused (valid : f.WellFormed) (demand : Demand) :
    ∃ g n, f.removeUnused demand = .ok (g, n) ∧ g.WellFormed ∧ Carries everyStep demand f g ∧
      Thinned f g := by
  obtain ⟨g, removed, pruned, valid', carried, thinned⟩ := valid.pruneRounds demand (f.size + 1) 0
  have fewer : Thinned g g.pruneEmptyRoots :=
    ⟨⟨fun _ => rfl, fun _ => List.mem_of_mem_filter⟩, fun _ => .inl rfl⟩
  refine ⟨g.pruneEmptyRoots, removed + (g.roots.length - g.pruneEmptyRoots.roots.length), ?_,
    valid'.pruneEmptyRoots, carried.trans valid'.carries_pruneEmptyRoots, thinned.trans fewer⟩
  unfold Forest.removeUnused
  rw [pruned]
  rfl

end WellFormed
end Viewflow.Flow.Forest
