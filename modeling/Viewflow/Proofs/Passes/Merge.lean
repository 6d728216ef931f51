import Viewflow.Flow.Merge
import Viewflow.Proofs.Forest.Descent
import Viewflow.Proofs.Passes.Settled

namespace Viewflow.Flow.Forest

variable {f g : Forest} {demand : Demand} {kept twin p x : NodeId} {ids : List NodeId}

theorem firstTwins_spec (found : f.firstTwins? ids = some (kept, twin)) :
    [kept, twin].Sublist ids ∧ (f.step kept).isOutput = false ∧
      (f.step kept).same (f.step twin) = true := by
  induction ids with
  | nil => cases found
  | cons id later ih =>
    unfold firstTwins? at found
    cases twins : f.twinOf? id later with
    | none =>
      rw [twins] at found
      obtain ⟨sublist, rest⟩ := ih found
      exact ⟨sublist.cons id, rest⟩
    | some other =>
      rw [twins] at found
      cases found
      unfold twinOf? at twins
      split at twins
      · cases twins
      · next silent =>
        have member := List.mem_of_find?_eq_some twins
        have equal := List.find?_some twins
        exact ⟨(List.singleton_sublist.mpr member).cons_cons kept, Bool.eq_false_iff.mpr silent,
          equal⟩

namespace WellFormed

theorem absorb (valid : f.WellFormed) (one : f.parent? kept = some p) (two : f.parent? twin = some p)
    (apart : kept ≠ twin) :
    ∃ g, f.absorb kept twin = .ok g ∧ g.WellFormed ∧
      ∃ down, Relinked f g (bypass f.parent? twin kept) down f.roots ∧
        down p = (f.children p).erase twin ∧ down kept = f.children kept ++ f.children twin ∧
        ∀ x, x ≠ p → x ≠ kept → x ≠ twin → down x = f.children x := by
  have known : ∀ i ∈ f.children twin, i.index < f.size := by
    intro i listed
    exact known_of_parent (valid.pointsBack twin i listed)
  have free : ∀ i ∈ f.children twin, ¬ Above f.parent? i kept := by
    intro i listed above
    have higher := (Above.parent (valid.pointsBack twin i listed)).trans above
    exact valid.apart_of_siblings two one (Ne.symm apart) higher .here
  obtain ⟨g, moved, valid', relinked⟩ :=
    valid.moveAll (known_of_parent one) valid.children_nodup known free
  have bare : ∀ x, g.parent? x ≠ some twin := by
    intro x
    rw [relinked.parent]
    by_cases listed : x ∈ f.children twin
    · simp [listed, apart]
    · rw [if_neg listed, ne_eq, ← valid.mem_children_iff]
      exact listed
  have own : twin ∉ f.children twin := valid.not_child fun under => valid.ne_parent under rfl
  have named : g.parent? twin = some p := by rw [relinked.parent, if_neg own, two]
  obtain ⟨h, removed, valid'', relinked'⟩ := valid'.remove named
  have low := (valid.ne_parent two).symm
  have above := (valid.ne_parent one).symm
  refine ⟨h, ?_, valid'', _, (relinked.trans relinked').congr ?_ (fun _ => rfl) ?_, ?_, ?_, ?_⟩
  · unfold Forest.absorb
    rw [moved]
    exact removed
  · intro x
    by_cases same : x = twin
    · simp [same]
    · rw [bypass_of_apart same (bare x), relinked.parent]
      simp only [valid.mem_children_iff, bypass, if_neg same]
  · rw [relinked.roots, valid.roots_apart]
  · rw [relinked.children, relinked.children, valid.children_apart low]
    simp [above, Ne.symm apart]
  · rw [relinked.children kept, valid.children_apart apart]
    simp [Ne.symm above, apart]
  · intro x elsewhere other gone
    rw [relinked.children x, valid.children_apart gone]
    simp [elsewhere, other, gone]

section Absorbed

variable {down : NodeId → List NodeId} (valid : f.WellFormed) (valid' : g.WellFormed)
  (one : f.parent? kept = some p) (two : f.parent? twin = some p) (apart : kept ≠ twin)
  (relinked : Relinked f g (bypass f.parent? twin kept) down f.roots)
include valid valid' one two apart relinked

theorem lineage_absorbed (other : x ≠ twin) :
    g.lineage x = (f.lineage x).map fun a => if a = twin then kept else a := by
  have low : p ≠ twin := (valid.ne_parent two).symm
  have line := (valid.lineage_line x).absorbed one two apart low
  rw [if_neg other, ← relinked.parents] at line
  exact valid'.lineage_of_line line

theorem alike_absorbed (equal : (f.step kept).same (f.step twin) = true) (other : x ≠ twin) :
    Step.Alike (f.route x) (g.route x) := by
  rw [route, route, valid.lineage_absorbed valid' one two apart relinked other, relinked.steps]
  apply List.forall₂_reverse_iff.mpr
  rw [List.forall₂_map_left_iff, List.forall₂_map_right_iff, List.forall₂_map_right_iff]
  apply List.forall₂_same.mpr
  intro a _
  by_cases same : a = twin
  · rw [if_pos same]
    exact same ▸ Step.same_symm equal
  · rw [if_neg same]
    exact Step.same_refl _

theorem carries_absorbed (silent : (f.step kept).isOutput = false)
    (equal : (f.step kept).same (f.step twin) = true) : Carries everyStep demand f g := by
  have spared : ¬ f.Delivers demand twin := by
    intro delivers
    obtain ⟨b, output, _⟩ := delivers.wanted
    rw [Step.isOutput_of_same equal, output] at silent
    cases silent
  refine valid.carries_bypassed valid' (by simp [two]) relinked spared ?_ ?_
  · intro x a other different above
    rw [← valid'.mem_lineage_iff, valid.lineage_absorbed valid' one two apart relinked other]
    exact List.mem_map.mpr ⟨a, valid.mem_lineage_iff.mpr above, if_neg different⟩
  · intro x other
    rw [filter_everyStep, filter_everyStep]
    exact valid.alike_absorbed valid' one two apart relinked equal other

end Absorbed

theorem twins_spec (valid : f.WellFormed) (found : f.firstTwins? (f.children p) = some (kept, twin)) :
    kept ≠ twin ∧ f.parent? kept = some p ∧ f.parent? twin = some p ∧
      (f.step kept).isOutput = false ∧ (f.step kept).same (f.step twin) = true := by
  obtain ⟨sublist, silent, equal⟩ := firstTwins_spec found
  have distinct := valid.children_nodup.sublist sublist
  have apart : kept ≠ twin := by simpa using distinct
  exact ⟨apart, valid.pointsBack p kept (sublist.subset (List.mem_cons_self ..)),
    valid.pointsBack p twin (sublist.subset (by simp)), silent, equal⟩

theorem mergeChildren (valid : f.WellFormed) (demand : Demand) (p : NodeId) (fuel merged : Nat) :
    ∃ g n, Forest.mergeChildren p fuel f merged = .ok (g, n) ∧ g.WellFormed ∧
      Carries everyStep demand f g ∧ Keeps f g ∧ (f.Settled → g.Settled) := by
  induction fuel generalizing f merged with
  | zero => exact ⟨f, merged, rfl, valid, .refl everyStep demand f, .refl f, fun settled => settled⟩
  | succ fuel ih =>
    cases found : f.firstTwins? (f.children p) with
    | none =>
      refine ⟨f, merged, ?_, valid, .refl everyStep demand f, .refl f, fun settled => settled⟩
      unfold Forest.mergeChildren
      rw [found]
    | some twins =>
      obtain ⟨kept, twin⟩ := twins
      obtain ⟨apart, one, two, silent, equal⟩ := valid.twins_spec found
      obtain ⟨g, absorbed, valid', _, relinked, _⟩ := valid.absorb one two apart
      have carried : Carries everyStep demand f g :=
        valid.carries_absorbed valid' one two apart relinked silent equal
      have kept : Keeps f g := ⟨relinked.step, fun _ root => relinked.roots ▸ root⟩
      obtain ⟨h, n, rest, valid'', carried', kept', settles⟩ := ih valid' (merged + 1)
      refine ⟨h, n, ?_, valid'', carried.trans carried', kept.trans kept', fun settled => settles
        (settled.absorbed valid' one two relinked)⟩
      unfold Forest.mergeChildren
      rw [found]
      simp only [absorbed, bind_ok]
      exact rest

-- No twins are left before the fuel is used up.
theorem mergeChildren_enough (valid : f.WellFormed) (p : NodeId) (fuel more merged : Nat)
    (enough : (f.children p).length ≤ fuel) :
    Forest.mergeChildren p (fuel + more) f merged = Forest.mergeChildren p fuel f merged := by
  induction fuel generalizing f merged with
  | zero =>
    have childless : f.children p = [] := List.eq_nil_of_length_eq_zero (Nat.le_zero.mp enough)
    cases more with
    | zero => rfl
    | succ more => simp [Forest.mergeChildren, childless, firstTwins?]
  | succ fuel ih =>
    rw [Nat.add_right_comm]
    unfold Forest.mergeChildren
    cases found : f.firstTwins? (f.children p) with
    | none => rfl
    | some twins =>
      obtain ⟨kept, twin⟩ := twins
      obtain ⟨apart, one, two, _⟩ := valid.twins_spec found
      obtain ⟨g, absorbed, valid', _, relinked, fewer, _⟩ := valid.absorb one two apart
      have listed := valid.mem_children_iff.mpr two
      have some := List.length_pos_of_mem listed
      have shorter : (g.children p).length ≤ fuel := by
        rw [relinked.children, fewer, List.length_erase_of_mem listed]
        omega
      simp only [absorbed, bind_ok]
      exact ih valid' _ shorter

theorem mergeNext (valid : f.WellFormed) (demand : Demand) (merged : Nat) (id : NodeId) :
    ∃ g n, Forest.mergeNext (f, merged) id = .ok (g, n) ∧ g.WellFormed ∧
      Carries everyStep demand f g ∧ Keeps f g ∧ (f.Settled → g.Settled) := by
  by_cases attached : f.isAttached id = true
  · unfold Forest.mergeNext
    rw [if_pos attached]
    exact valid.mergeChildren demand id (f.children id).length merged
  · unfold Forest.mergeNext
    rw [if_neg attached]
    exact ⟨f, merged, rfl, valid, .refl everyStep demand f, .refl f, fun settled => settled⟩

theorem mergeEach (valid : f.WellFormed) (demand : Demand) (merged : Nat) (ids : List NodeId) :
    ∃ g n, ids.foldlM Forest.mergeNext (f, merged) = .ok (g, n) ∧ g.WellFormed ∧
      Carries everyStep demand f g ∧ Keeps f g ∧ (f.Settled → g.Settled) := by
  induction ids generalizing f merged with
  | nil => exact ⟨f, merged, rfl, valid, .refl everyStep demand f, .refl f, fun settled => settled⟩
  | cons id ids ih =>
    obtain ⟨g, n, done, valid', carried, kept, settles⟩ := valid.mergeNext demand merged id
    obtain ⟨h, m, rest, valid'', carried', kept', settles'⟩ := ih valid' n
    refine ⟨h, m, ?_, valid'', carried.trans carried', kept.trans kept', fun settled =>
      settles' (settles settled)⟩
    rw [List.foldlM_cons, done]
    exact rest

theorem mergeSiblings (valid : f.WellFormed) (demand : Demand) :
    ∃ g n, f.mergeSiblings = .ok (g, n) ∧ g.WellFormed ∧ Carries everyStep demand f g ∧
      Keeps f g ∧ (f.Settled → g.Settled) :=
  valid.mergeEach demand 0 f.walkAll

end WellFormed
end Viewflow.Flow.Forest
