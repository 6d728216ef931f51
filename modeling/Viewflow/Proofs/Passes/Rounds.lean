import Viewflow.Proofs.Lowering.Layers
import Viewflow.Proofs.Passes.Climb
import Viewflow.Proofs.Passes.Twins

namespace Viewflow.Flow

variable {f g h : Forest} {demand : Demand} {inner : Boundary → Prop} {mains : List NodeId}
  {id p x : NodeId} {n : HoistCount} {down : NodeId → List NodeId}

namespace Forest

theorem WellFormed.deadLeaves_of_asked (valid : f.WellFormed) (asked : f.Asked demand mains) :
    f.deadLeaves demand = [] := by
  apply List.filter_eq_nil_iff.mpr
  intro id leaf dead
  obtain ⟨visited, childless⟩ := List.mem_filter.mp leaf
  have wanted := asked.tips id (valid.mem_walkAll_iff.mp visited) (List.isEmpty_iff.mp childless)
  unfold Forest.wanted at wanted
  unfold isDeadLeaf at dead
  split at wanted
  · next b output => simp [output, wanted] at dead
  · cases wanted

-- Where all strands end in what was asked for, and sources have something below, pruning has nothing
-- to do.
theorem WellFormed.removeUnused_of_asked (valid : f.WellFormed) (asked : f.Asked demand mains)
    (rooted : ∀ r ∈ f.roots, (f.step r).isSource = true) : f.removeUnused demand = .ok (f, 0) := by
  apply removeUnused_of_clean (valid.deadLeaves_of_asked asked)
  intro r root childless
  have wanted := asked.tips r (valid.attached_of_root root) childless
  have source := rooted r root
  unfold Forest.wanted at wanted
  split at wanted
  · next b output => simp [output, Step.isSource] at source
  · cases wanted

-- How far a coercion can climb: as far as to the node below the root.
def wayUp (layer : Step × Nat) : Nat := if layer.1.isParse then layer.2 - 1 else 0

def waysUp (f : Forest) : Nat := (f.layers.map wayUp).sum

theorem waysUp_eq (f : Forest) :
    f.waysUp = (f.attachedIds.map fun id => wayUp (f.step id, f.depth id)).sum := by
  simp [waysUp, layers, Function.comp_def]

theorem sum_map_of_one {l : List NodeId} {w w' : NodeId → Nat} (distinct : l.Nodup) (listed : x ∈ l)
    (one : w x = w' x + 1) (others : ∀ y ∈ l, y ≠ x → w y = w' y) :
    (l.map w).sum = (l.map w').sum + 1 := by
  have front := List.perm_cons_erase listed
  have rest : (l.erase x).map w = (l.erase x).map w' := by
    refine List.map_congr_left fun y member => ?_
    obtain ⟨other, member⟩ := (distinct.mem_erase_iff).mp member
    exact others y member other
  rw [(front.map w).sum_eq, (front.map w').sum_eq, List.map_cons, List.map_cons, List.sum_cons,
    List.sum_cons, one, rest]
  omega

namespace WellFormed

theorem depth_eq (valid : f.WellFormed) (valid' : g.WellFormed)
    (same : ∀ a, Above g.parent? a x ↔ Above f.parent? a x) : g.depth x = f.depth x := by
  have line : (g.lineage x).Perm (f.lineage x) := by
    refine (List.perm_ext_iff_of_nodup (valid'.lineage_nodup x) (valid.lineage_nodup x)).mpr ?_
    intro a
    rw [valid.mem_lineage_iff, valid'.mem_lineage_iff, same]
  unfold depth
  rw [line.length_eq]

section Exchanged

variable (valid : f.WellFormed) (valid' : g.WellFormed) (named : f.parent? id = some p)
  (free : f.blocks p id = false)
  (relinked : Relinked f g (exchange f.parent? id p) down (f.roots.replace p id))
include valid valid' named free relinked

theorem depth_beside (other : x ≠ id) (elsewhere : x ≠ p) : g.depth x = f.depth x := by
  have alone : ∀ c, f.parent? c = some p → c = id := fun c => valid.only_child named free
  exact valid.depth_eq valid' fun a =>
    valid.above_exchanged valid' named alone relinked other elsewhere

theorem depth_climber {q : NodeId} (upper : f.parent? p = some q) :
    f.depth id = f.depth q + 2 ∧ g.depth id = f.depth q + 1 := by
  have above : Above f.parent? q id := .under named (.parent upper)
  have other : q ≠ id := by
    rintro rfl
    exact valid.no_return upper (.parent named)
  have named' : g.parent? id = some q := by rw [relinked.parent, exchange_self, upper]
  rw [valid.depth_under named, valid.depth_under upper, valid'.depth_under named',
    valid.depth_beside valid' named free relinked other (valid.ne_parent upper).symm]
  exact ⟨rfl, rfl⟩

end Exchanged
end WellFormed

-- What hoisting does on strands: coercions climb, each change of places one step, and all else stays
-- where it was.
structure Raised (demand : Demand) (f g : Forest) (swapped : Nat) : Prop where
  strands : g.Strands demand.Spares
  step : g.step = f.step
  ids : g.attachedIds = f.attachedIds
  ways : f.waysUp = g.waysUp + swapped
  above : ∀ a x, (f.step a).isParse = false → (f.step x).isParse = false →
    Above f.parent? a x → Above g.parent? a x

theorem Raised.refl (strands : f.Strands demand.Spares) : Raised demand f f 0 :=
  ⟨strands, rfl, rfl, rfl, fun _ _ _ _ above => above⟩

theorem Raised.trans {s t : Nat} (one : Raised demand f g s) (two : Raised demand g h t) :
    Raised demand f h (t + s) where
  strands := two.strands
  step := two.step.trans one.step
  ids := two.ids.trans one.ids
  ways := by rw [one.ways, two.ways, Nat.add_assoc]
  above a x upper lower above :=
    two.above a x (one.step ▸ upper) (one.step ▸ lower) (one.above a x upper lower above)

theorem Strands.raised_climb (strands : f.Strands demand.Spares) (named : f.parent? id = some p)
    (attached : f.isAttached id = true) (parse : (f.step id).isParse = true)
    (free : f.blocks p id = false) (swapped : f.swapWithParent id = .ok g) :
    Raised demand f g 1 := by
  have valid := strands.valid
  obtain ⟨valid', relinked⟩ :=
    of_ok (valid.swapWithParent named (valid.placed_of_attached named attached)) swapped
  have low := strands.not_parse_above named parse
  have inside := inside_of_free (Bool.eq_false_iff.mp free)
  have apart : ∀ x, (f.step x).isParse = false → x ≠ id := by
    rintro x other rfl
    simp [parse] at other
  have ids : g.attachedIds = f.attachedIds := by
    rw [(valid.sheds_exchanged valid' named free relinked low).attachedIds_eq]
    simp
  refine ⟨(strands.climbed named parse inside valid' relinked).strands, relinked.steps, ids, ?_,
    fun a x upper lower =>
      (valid.above_exchanged_of_ne valid' named relinked (apart x lower) (apart a upper)).mpr⟩
  obtain ⟨q, upper⟩ : ∃ q, f.parent? p = some q := by
    cases top : f.parent? p with
    | none =>
      have higher := (valid.attached_iff_parent named).mp attached
      have source := strands.rooted p (valid.root_of_attached_top higher top)
      simp [inside] at source
    | some q => exact ⟨q, rfl⟩
  obtain ⟨before, after⟩ := valid.depth_climber valid' named free relinked upper
  rw [waysUp_eq, waysUp_eq, ids]
  refine sum_map_of_one f.attachedIds_nodup (valid.mem_attachedIds_iff.mpr attached) ?_ ?_
  · simp [wayUp, relinked.step, parse, before, after]
  · intro y _ other
    by_cases coerces : (f.step y).isParse = true
    · have elsewhere : y ≠ p := by
        rintro rfl
        simp [low] at coerces
      rw [relinked.step, valid.depth_beside valid' named free relinked other elsewhere]
    · simp [wayUp, relinked.step, coerces]

theorem Strands.raised (strands : f.Strands demand.Spares) (hoists : Hoists f n g) :
    n.merged = 0 ∧ Raised demand f g n.swapped := by
  induction hoists with
  | none => exact ⟨rfl, .refl strands⟩
  | meet named _ parse upper _ _ _ => simp [strands.not_parse_above named parse] at upper
  | climb named attached parse _ free swapped _ ih =>
    have first := strands.raised_climb named attached parse free swapped
    obtain ⟨apart, rest⟩ := ih first.strands
    exact ⟨apart, first.trans rest⟩

theorem Settled.waysUp (settled : f.Settled) : f.waysUp = 0 := by
  rw [waysUp_eq]
  apply List.sum_eq_zero
  intro way member
  obtain ⟨id, listed, rfl⟩ := List.mem_map.mp member
  have valid := settled.valid
  unfold wayUp
  split
  · next parse =>
    cases named : f.parent? id with
    | none => simp [valid.depth_top named]
    | some p =>
      have source := settled.grounded id p (valid.mem_attachedIds_iff.mp listed) parse named
      simp [valid.depth_under named, valid.depth_top (settled.sources p source)]
  · rfl

theorem Strands.round (strands : f.Strands demand.Spares) (asked : f.Asked demand mains) :
    ∃ h g merged, f.moveParseUp = .ok (h, ⟨f.waysUp, 0⟩) ∧ h.mergeSiblings = .ok (g, merged) ∧
      f.round demand = .ok (g, ⟨0, f.waysUp, merged, 1⟩) ∧ g.Settled ∧ Keeps f g ∧
      g.round demand = .ok (g, ⟨0, 0, 0, 1⟩) := by
  have valid := strands.valid
  obtain ⟨h, ⟨swapped, met⟩, climbed, settled, _, kept⟩ := strands.moveParseUp
  obtain ⟨g, merged, joined, valid', _, kept', settles⟩ := settled.valid.mergeSiblings demand
  obtain ⟨rfl, raised⟩ : met = 0 ∧ Raised demand f h swapped :=
    strands.raised (valid.hoists_moveParseUp climbed)
  have ways := raised.ways
  rw [settled.waysUp, Nat.zero_add] at ways
  have asked' : h.Asked demand mains := (valid.moves_moveParseUp climbed).asked valid asked
  have asked'' : g.Asked demand mains :=
    (settled.valid.moves_mergeSiblings joined).asked settled.valid asked'
  have keeps := kept.trans kept'
  have rooted : ∀ r ∈ g.roots, (g.step r).isSource = true := by
    intro r root
    rw [keeps.step]
    exact strands.rooted r (keeps.roots root)
  refine ⟨h, g, merged, ways ▸ climbed, joined, ?_, settles settled, keeps, ?_⟩
  · unfold Forest.round
    simp only [valid.removeUnused_of_asked asked strands.rooted, climbed, joined, bind_ok, ways,
      Nat.zero_add]
    rfl
  · unfold Forest.round
    simp only [valid'.removeUnused_of_asked asked'' rooted, (settles settled).moveParseUp,
      settled.valid.mergeSiblings_twice joined, bind_ok]
    rfl

def StopsStill (f : Forest) (demand : Demand) (g : Forest) (tally : Tally) : Prop :=
  ∃ before, rounds demand before.rounds f .zero = .ok (g, before) ∧ before.rounds ≤ 1 ∧
    g.round demand = .ok (g, ⟨0, 0, 0, 1⟩) ∧ tally = before.add ⟨0, 0, 0, 1⟩

theorem Strands.optimize_parts (strands : f.Strands demand.Spares) (asked : f.Asked demand mains)
    (bound : Nat) :
    ∃ h g merged tally, f.moveParseUp = .ok (h, ⟨f.waysUp, 0⟩) ∧
      h.mergeSiblings = .ok (g, merged) ∧ f.optimize demand bound = .ok (g, tally) ∧
      g.Settled ∧ Keeps f g ∧ tally.removed = 0 ∧ tally.swapped = f.waysUp ∧ tally.rounds ≤ 2 ∧
      (2 ≤ bound → f.StopsStill demand g tally) := by
  obtain ⟨h, g, merged, climbed, joined, first, settled, keeps, still⟩ := strands.round asked
  refine ⟨h, g, merged, ?_⟩
  by_cases none : (Tally.mk 0 f.waysUp merged 1).changes = 0
  · obtain ⟨rfl, counted, _⟩ := strands.valid.round_still first none
    refine ⟨⟨0, 0, 0, 1⟩, climbed, joined, ?_, settled, keeps, rfl,
      (congrArg Tally.swapped counted).symm, by decide, fun _ => ⟨.zero, rfl, by decide, still, rfl⟩⟩
    obtain ⟨more, least⟩ := Nat.exists_eq_add_of_le' (Nat.le_max_right bound 1)
    unfold Forest.optimize
    rw [least]
    simp only [Forest.rounds, still, bind_ok]
    rfl
  · by_cases enough : 2 ≤ bound
    · obtain ⟨more, rfl⟩ := Nat.exists_eq_add_of_le' enough
      have least : max (more + 2) 1 = more + 1 + 1 := Nat.max_eq_left (by omega)
      refine ⟨⟨0, f.waysUp, merged, 2⟩, climbed, joined, ?_, settled, keeps, rfl, rfl, Nat.le_refl 2,
        fun _ => ⟨⟨0, f.waysUp, merged, 1⟩, ?_, Nat.le_refl 1, still, rfl⟩⟩
      · unfold Forest.optimize
        rw [least]
        simp only [Forest.rounds, first, bind_ok, none, if_false, still]
        simp [Tally.changes, Tally.add, Tally.zero]
        rfl
      · simp [Forest.rounds, first, bind_ok, none, Tally.add, Tally.zero]
    · have least : max bound 1 = 0 + 1 := Nat.max_eq_right (by omega)
      refine ⟨⟨0, f.waysUp, merged, 1⟩, climbed, joined, ?_, settled, keeps, rfl, rfl,
        Nat.le_succ 1, fun wrong => absurd wrong enough⟩
      unfold Forest.optimize
      rw [least]
      simp [Forest.rounds, first, bind_ok, none, Tally.add, Tally.zero]

end Forest
end Viewflow.Flow
