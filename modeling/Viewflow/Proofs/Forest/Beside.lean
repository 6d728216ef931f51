import Viewflow.Proofs.Forest.Descent
import Viewflow.Proofs.Forest.Splice
import Viewflow.Proofs.Forest.Strands

namespace Viewflow.Flow.Forest

variable {f f' g g' : Forest} {n : Nat} {a id p x : NodeId} {ids : List NodeId} {l : List NodeId}
  {up up' : NodeId → Option NodeId} {down down' : NodeId → List NodeId} {roots roots' : List NodeId}

-- The nodes numbered below n are those of f, and no others are linked to them.
structure Beside (n : Nat) (f g : Forest) : Prop where
  valid : f.WellFormed
  valid' : g.WellFormed
  size : f.size = n
  larger : n ≤ g.size
  step : ∀ x, x.index < n → g.step x = f.step x
  parent : ∀ x, x.index < n → g.parent? x = f.parent? x
  children : ∀ x, x.index < n → g.children x = f.children x
  roots : ∃ more, g.roots = f.roots ++ more ∧ ∀ r ∈ more, n ≤ r.index

namespace Beside

theorem refl (valid : f.WellFormed) : Beside f.size f f :=
  ⟨valid, valid, rfl, Nat.le_refl _, fun _ _ => rfl, fun _ _ => rfl, fun _ _ => rfl, [],
    (List.append_nil _).symm, nofun⟩

section

variable (beside : Beside n f g)
include beside

theorem low_linked (named : f.parent? x = some p) : x.index < n ∧ p.index < n :=
  ⟨beside.size ▸ known_of_parent named, beside.size ▸ beside.valid.parent_known named⟩

theorem low_root (root : x ∈ f.roots) : x.index < n := beside.size ▸ beside.valid.rootKnown x root

theorem low_parent (low : x.index < n) (named : g.parent? x = some p) : p.index < n :=
  (beside.low_linked ((beside.parent x low).symm.trans named)).2

theorem low_child (low : p.index < n) (named : g.parent? x = some p) : x.index < n := by
  have listed := beside.valid'.mem_children_iff.mpr named
  rw [beside.children p low, beside.valid.mem_children_iff] at listed
  exact (beside.low_linked listed).1

theorem high_parent (high : n ≤ x.index) (named : g.parent? x = some p) : n ≤ p.index :=
  Nat.le_of_not_lt fun low => Nat.not_lt.mpr high (beside.low_child low named)

omit beside in
theorem ne_low (high : n ≤ id.index) (low : x.index < n) : x ≠ id := by
  rintro rfl
  exact Nat.not_lt.mpr high low

theorem line (low : x.index < n) (line : Line f.parent? x l) : Line g.parent? x l := by
  induction line with
  | top top => exact .top ((beside.parent _ low).trans top)
  | under named _ ih =>
    exact .under ((beside.parent _ low).trans named)
      (ih (beside.low_linked named).2)

theorem lineage (low : x.index < n) : g.lineage x = f.lineage x :=
  beside.valid'.lineage_of_line (beside.line low (beside.valid.lineage_line x))

theorem above (low : x.index < n) : Above g.parent? a x ↔ Above f.parent? a x := by
  rw [← beside.valid.mem_lineage_iff, ← beside.valid'.mem_lineage_iff, beside.lineage low]

theorem attached (low : x.index < n) : g.isAttached x = f.isAttached x := by
  obtain ⟨more, listed, high⟩ := beside.roots
  have top : f.top x ∉ more := by
    intro member
    have above := (beside.valid.top_spec x).1
    have known := beside.valid.above_known above (beside.size.symm ▸ low)
    exact Nat.not_lt.mpr (high _ member) (beside.size ▸ known)
  unfold isAttached Forest.top
  rw [beside.lineage low]
  change g.roots.contains (f.top x) = f.roots.contains (f.top x)
  rw [listed, Bool.eq_iff_iff, List.contains_iff_mem, List.contains_iff_mem, List.mem_append]
  exact or_iff_left top

theorem tree (low : x.index < n) : g.tree x = f.tree x := by
  refine beside.valid.downward (motive := fun x => x.index < n → g.tree x = f.tree x) (?_) x low
  intro x ih low
  have below : ∀ c ∈ f.children x, g.tree c = f.tree c := fun c listed =>
    ih c listed (beside.low_linked (beside.valid.pointsBack x c listed)).1
  rw [beside.valid.tree_eq, beside.valid'.tree_eq, beside.step x low, beside.children x low,
    List.map_congr_left below]

theorem trees : ∃ more, g.roots = f.roots ++ more ∧ (∀ r ∈ more, n ≤ r.index) ∧
    g.trees = f.trees ++ more.map g.tree := by
  obtain ⟨more, listed, high⟩ := beside.roots
  have own : ∀ r ∈ f.roots, g.tree r = f.tree r := fun r root =>
    beside.tree (beside.low_root root)
  refine ⟨more, listed, high, ?_⟩
  unfold Forest.trees
  rw [listed, List.map_append, List.map_congr_left own]

theorem high_of_above (high : n ≤ a.index) (above : Above g.parent? a x) : n ≤ x.index := by
  induction above with
  | here => exact high
  | under named _ ih =>
    exact Nat.le_of_not_lt fun low => Nat.not_lt.mpr ih (beside.low_parent low named)

theorem walkAll : ∃ more, g.walkAll = f.walkAll ++ more ∧ ∀ x ∈ more, n ≤ x.index := by
  obtain ⟨more, listed, high⟩ := beside.roots
  refine ⟨more.flatMap fun r => (g.tree r).ids, ?_, ?_⟩
  · have own : ∀ r ∈ f.roots, (g.tree r).ids = (f.tree r).ids := fun r root => by
      rw [beside.tree (beside.low_root root)]
    rw [beside.valid.walkAll_eq, beside.valid'.walkAll_eq, listed, List.flatMap_append,
      List.flatMap_congr own]
  · intro x member
    obtain ⟨r, root, below⟩ := List.mem_flatMap.mp member
    exact beside.high_of_above (high r root) ((beside.valid'.mem_ids_iff r x).mp below)

theorem both (one : Relinked f f' up down roots) (two : Relinked g g' up' down' roots')
    (valid : f'.WellFormed) (valid' : g'.WellFormed)
    (sameUp : ∀ x, x.index < n → up' x = up x) (sameDown : ∀ x, x.index < n → down' x = down x)
    (more : ∃ more, roots' = roots ++ more ∧ ∀ r ∈ more, n ≤ r.index) : Beside n f' g' where
  valid := valid
  valid' := valid'
  size := one.size.trans beside.size
  larger := two.size ▸ beside.larger
  step x low := by rw [one.step, two.step, beside.step x low]
  parent x low := by rw [one.parent, two.parent, sameUp x low]
  children x low := by rw [one.children, two.children, sameDown x low]
  roots := by
    rw [one.roots, two.roots]
    exact more

theorem aside (two : Relinked g g' up' down' roots') (valid' : g'.WellFormed)
    (sameUp : ∀ x, x.index < n → up' x = g.parent? x)
    (sameDown : ∀ x, x.index < n → down' x = g.children x)
    (more : ∃ more, roots' = f.roots ++ more ∧ ∀ r ∈ more, n ≤ r.index) : Beside n f g' :=
  beside.both (.refl f) two beside.valid valid' (fun x low => (sameUp x low).trans (beside.parent x low))
    (fun x low => (sameDown x low).trans (beside.children x low)) more

theorem setStep (low : id.index < n) (s : Step) : Beside n (f.setStep id s) (g.setStep id s) where
  valid := beside.valid.setStep id s
  valid' := beside.valid'.setStep id s
  size := (size_modify ..).trans beside.size
  larger := le_of_le_of_eq beside.larger (size_modify ..).symm
  step x low' := by
    rw [step_setStep f (beside.size.symm ▸ low),
      step_setStep g (Nat.lt_of_lt_of_le low beside.larger), beside.step x low']
  parent x low' := by rw [parent_setStep, parent_setStep, beside.parent x low']
  children x low' := by rw [children_setStep, children_setStep, beside.children x low']
  roots := beside.roots

theorem setStep_aside (high : n ≤ id.index) (s : Step) : Beside n f (g.setStep id s) where
  valid := beside.valid
  valid' := beside.valid'.setStep id s
  size := beside.size
  larger := le_of_le_of_eq beside.larger (size_modify ..).symm
  step x low := by
    rw [Forest.step, node_setStep, if_neg fun here => ne_low high low here.1]
    exact beside.step x low
  parent x low := by rw [parent_setStep, beside.parent x low]
  children x low := by rw [children_setStep, beside.children x low]
  roots := beside.roots

theorem addRoot (name : String) (s : Step) : Beside n f (g.addRoot name s).1 := by
  have grows := grows_addRoot g name s
  have known : ∀ {x : NodeId}, x.index < n → x.index < g.size := fun low =>
    Nat.lt_of_lt_of_le low beside.larger
  obtain ⟨more, listed, high⟩ := beside.roots
  refine ⟨beside.valid, beside.valid'.addRoot name s, beside.size, Nat.le_trans beside.larger grows.size,
    fun x low => (grows.step x (known low)).trans (beside.step x low),
    fun x low => (grows.parent x (known low)).trans (beside.parent x low),
    fun x low => (children_addNode g name s x).trans (beside.children x low),
    more ++ [g.nextId], ?_, ?_⟩
  · rw [← List.append_assoc, ← listed]
    rfl
  · intro r member
    rcases List.mem_append.mp member with old | new
    · exact high r old
    · rw [List.mem_singleton.mp new]
      exact beside.larger

theorem addUnder (high : n ≤ p.index) (known : p.index < g.size) (name : String) (s : Step) :
    Beside n f (g.addUnder p name s).1 := by
  have tip := tip_addUnder beside.valid' known name s
  obtain ⟨valid', relinked⟩ := beside.valid'.addUnder known name s
  have within : ∀ {x : NodeId}, x.index < n → x.index < g.size := fun low =>
    Nat.lt_of_lt_of_le low beside.larger
  refine ⟨beside.valid, valid', beside.size, Nat.le_trans beside.larger tip.grows.size,
    fun x low => (tip.grows.step x (within low)).trans (beside.step x low),
    fun x low => (tip.grows.parent x (within low)).trans (beside.parent x low), ?_, ?_⟩
  · intro x low
    rw [relinked.children, if_neg (ne_low high low), List.append_nil]
    exact beside.children x low
  · rw [tip.roots]
    exact beside.roots

end
end Beside
end Viewflow.Flow.Forest
