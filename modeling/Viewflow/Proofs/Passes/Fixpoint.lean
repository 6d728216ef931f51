import Mathlib.Algebra.Order.BigOperators.Group.List
import Mathlib.Algebra.Order.Ring.Nat
import Viewflow.Proofs.Passes.Moves

namespace Viewflow.Flow.Forest

variable {f g h : Forest} {demand : Demand} {id p x : NodeId} {gone : List NodeId} {t : Tally}

def everyId (f : Forest) : List NodeId := (List.range f.size).map NodeId.mk

def attachedIds (f : Forest) : List NodeId := f.everyId.filter f.isAttached

def depth (f : Forest) (id : NodeId) : Nat := (f.lineage id).length - 1

def attachedParses (f : Forest) : List NodeId :=
  f.attachedIds.filter fun id => (f.step id).isParse

def parseDepth (f : Forest) : Nat := (f.attachedParses.map f.depth).sum

theorem everyId_nodup (f : Forest) : f.everyId.Nodup :=
  List.nodup_range.map fun _ _ same => congrArg NodeId.index same

theorem mem_everyId_iff : id ∈ f.everyId ↔ id.index < f.size := by
  unfold everyId
  rw [List.mem_map]
  constructor
  · rintro ⟨i, known, rfl⟩
    exact List.mem_range.mp known
  · intro known
    exact ⟨id.index, List.mem_range.mpr known, rfl⟩

theorem attachedIds_nodup (f : Forest) : f.attachedIds.Nodup := f.everyId_nodup.filter _

theorem WellFormed.mem_attachedIds_iff (valid : f.WellFormed) :
    id ∈ f.attachedIds ↔ f.isAttached id = true := by
  unfold attachedIds
  rw [List.mem_filter, mem_everyId_iff]
  exact ⟨And.right, fun attached => ⟨valid.attached_known attached, attached⟩⟩

theorem WellFormed.mem_attachedParses_iff (valid : f.WellFormed) :
    id ∈ f.attachedParses ↔ f.isAttached id = true ∧ (f.step id).isParse = true := by
  unfold attachedParses
  rw [List.mem_filter, valid.mem_attachedIds_iff]

structure Sheds (f g : Forest) (gone : List NodeId) : Prop where
  size : g.size = f.size
  parses : SameParses f g
  attached : ∀ x, g.isAttached x = (f.isAttached x && decide (x ∉ gone))
  shallower : ∀ x, g.isAttached x = true → (g.step x).isParse = true → g.depth x ≤ f.depth x

namespace Sheds

variable (sheds : Sheds f g gone)
include sheds

theorem attached_iff (x : NodeId) : g.isAttached x = true ↔ f.isAttached x = true ∧ x ∉ gone := by
  rw [sheds.attached, Bool.and_eq_true, decide_eq_true_eq]

theorem attachedIds_eq : g.attachedIds = f.attachedIds.filter (· ∉ gone) := by
  unfold attachedIds everyId
  rw [sheds.size, List.filter_filter]
  refine List.filter_congr fun x _ => ?_
  rw [sheds.attached, Bool.and_comm]

theorem attachedParses_sublist : g.attachedParses.Sublist f.attachedParses := by
  unfold attachedParses
  simp only [sheds.parses _, sheds.attachedIds_eq]
  exact List.filter_sublist.filter _

theorem attachedIds_length (valid : f.WellFormed) (distinct : gone.Nodup)
    (attached : ∀ x ∈ gone, f.isAttached x = true) :
    f.attachedIds.length = g.attachedIds.length + gone.length := by
  have lost : (f.attachedIds.filter (· ∈ gone)).Perm gone := by
    refine (List.perm_ext_iff_of_nodup (f.attachedIds_nodup.filter _) distinct).mpr ?_
    intro x
    rw [List.mem_filter, decide_eq_true_eq, valid.mem_attachedIds_iff]
    exact ⟨And.right, fun member => ⟨attached x member, member⟩⟩
  have parts := f.attachedIds.length_eq_length_filter_add (· ∈ gone)
  rw [lost.length_eq] at parts
  rw [sheds.attachedIds_eq]
  simp only [decide_not]
  omega

theorem depths_le (valid : g.WellFormed) :
    (g.attachedParses.map g.depth).sum ≤ (g.attachedParses.map f.depth).sum := by
  refine List.sum_le_sum fun x member => ?_
  obtain ⟨attached, parse⟩ := valid.mem_attachedParses_iff.mp member
  exact sheds.shallower x attached parse

theorem parseDepth_le (valid : g.WellFormed) : g.parseDepth ≤ f.parseDepth :=
  Nat.le_trans (sheds.depths_le valid)
    ((sheds.attachedParses_sublist.map f.depth).sum_le_sum fun _ _ => Nat.zero_le _)

theorem parseDepth_lt (valid : g.WellFormed) (listed : x ∈ g.attachedParses)
    (climbed : g.depth x < f.depth x) : g.parseDepth < f.parseDepth := by
  have less : (g.attachedParses.map g.depth).sum < (g.attachedParses.map f.depth).sum := by
    refine List.sum_lt_sum _ _ (fun y member => ?_) ⟨x, listed, climbed⟩
    obtain ⟨attached, parse⟩ := valid.mem_attachedParses_iff.mp member
    exact sheds.shallower y attached parse
  exact Nat.lt_of_lt_of_le less
    ((sheds.attachedParses_sublist.map f.depth).sum_le_sum fun _ _ => Nat.zero_le _)

end Sheds

theorem Sheds.trans {later : List NodeId} (one : Sheds f g gone) (two : Sheds g h later) :
    Sheds f h (gone ++ later) where
  size := two.size.trans one.size
  parses := one.parses.trans two.parses
  attached x := by
    rw [two.attached, one.attached, Bool.and_assoc]
    congr 1
    simp [Bool.decide_and]
  shallower x attached parse := by
    have attached' := ((two.attached_iff x).mp attached).1
    exact Nat.le_trans (two.shallower x attached parse)
      (one.shallower x attached' ((two.parses x).symm.trans parse))

namespace WellFormed

theorem sheds_of_same_edges (valid : f.WellFormed) (valid' : g.WellFormed) (size : g.size = f.size)
    (parses : SameParses f g) (parents : g.parent? = f.parent?)
    (attached : ∀ x, g.isAttached x = (f.isAttached x && decide (x ∉ gone))) : Sheds f g gone where
  size := size
  parses := parses
  attached := attached
  shallower x _ _ := by
    rw [depth, valid.lineage_of_parents valid' parents, depth]

theorem depth_succ (valid : f.WellFormed) (x : NodeId) : (f.lineage x).length = f.depth x + 1 := by
  have some := List.length_pos_of_mem (valid.mem_lineage_iff.mpr (.here : Above f.parent? x x))
  unfold depth
  omega

theorem depth_le (valid : f.WellFormed) (valid' : g.WellFormed) {x : NodeId}
    (shorter : (g.lineage x).length ≤ (f.lineage x).length) : g.depth x ≤ f.depth x := by
  rw [valid.depth_succ, valid'.depth_succ] at shorter
  omega

theorem sheds_removed (valid : f.WellFormed) (valid' : g.WellFormed) {down : NodeId → List NodeId}
    (named : f.parent? id = some p)
    (relinked : Relinked f g (bypass f.parent? id p) down f.roots) : Sheds f g [id] where
  size := relinked.size
  parses x := by rw [relinked.step]
  attached x := by
    rw [valid.attached_removed valid' named relinked]
    simp
  shallower x attached _ := by
    rw [valid.attached_removed valid' named relinked, Bool.and_eq_true, decide_eq_true_eq] at attached
    apply valid.depth_le valid'
    rw [valid.lineage_removed valid' named relinked attached.2]
    exact List.length_filter_le ..

theorem sheds_absorbed (valid : f.WellFormed) (valid' : g.WellFormed) {kept twin : NodeId}
    {down : NodeId → List NodeId} (one : f.parent? kept = some p) (two : f.parent? twin = some p)
    (apart : kept ≠ twin) (relinked : Relinked f g (bypass f.parent? twin kept) down f.roots) :
    Sheds f g [twin] where
  size := relinked.size
  parses x := by rw [relinked.step]
  attached x := by
    rw [valid.attached_without valid' two one apart relinked]
    simp
  shallower x attached _ := by
    rw [valid.attached_without valid' two one apart relinked, Bool.and_eq_true,
      decide_eq_true_eq] at attached
    apply valid.depth_le valid'
    rw [valid.lineage_absorbed valid' one two apart relinked attached.2, List.length_map]

theorem sheds_mergeParse (valid : f.WellFormed) (id into : NodeId) :
    Sheds f (f.mergeParse id into) [] := by
  have parents := funext (parent_mergeParse f id into)
  have size : (f.mergeParse id into).size = f.size := by
    rcases mergeParse_cases f id into with same | ⟨_, _, _, changed⟩
    · rw [same]
    · rw [changed]
      exact size_modify ..
  refine valid.sheds_of_same_edges (valid.mergeParse id into) size (mergeParse_sameParses f id into)
    parents ?_
  intro x
  rw [Bool.eq_iff_iff, (valid.mergeParse id into).isAttached_iff, parents, roots_mergeParse]
  simp [valid.isAttached_iff]

theorem sheds_cleared (valid : f.WellFormed) :
    Sheds f f.pruneEmptyRoots (f.roots.filter fun r => (f.children r).isEmpty) := by
  refine valid.sheds_of_same_edges valid.pruneEmptyRoots rfl (fun _ => rfl) rfl ?_
  intro x
  rw [Bool.eq_iff_iff, Bool.and_eq_true, valid.pruneEmptyRoots.isAttached_iff, valid.isAttached_iff,
    decide_eq_true_eq]
  constructor
  · rintro ⟨r, root, above⟩
    obtain ⟨root, parents⟩ := List.mem_filter.mp root
    refine ⟨⟨r, root, above⟩, ?_⟩
    intro bare
    obtain ⟨root', childless⟩ := List.mem_filter.mp bare
    have same : r = x := above.eq_of_top (valid.rootTop x root')
    rw [same, childless] at parents
    cases parents
  · rintro ⟨⟨r, root, above⟩, kept⟩
    refine ⟨r, List.mem_filter.mpr ⟨root, ?_⟩, above⟩
    rw [Bool.not_eq_true', Bool.eq_false_iff]
    intro childless
    have same := valid.eq_of_above_childless (List.isEmpty_iff.mp childless) above
    exact kept (List.mem_filter.mpr (same ▸ ⟨root, childless⟩))

section Climbing

variable {down : NodeId → List NodeId} (valid : f.WellFormed) (valid' : g.WellFormed)
  (named : f.parent? id = some p) (free : f.blocks p id = false)
  (relinked : Relinked f g (exchange f.parent? id p) down (f.roots.replace p id))
include valid valid' named free relinked

omit free in
theorem depth_climbed : g.depth id < f.depth id := by
  have shorter := valid.lineage_climbed valid' named relinked
  rw [valid.depth_succ, valid'.depth_succ] at shorter
  omega

theorem sheds_exchanged (low : (f.step p).isParse = false) : Sheds f g [] where
  size := relinked.size
  parses x := by rw [relinked.step]
  attached x := by
    rw [valid.attached_same valid' named relinked]
    simp
  shallower x _ parse := by
    rw [relinked.step] at parse
    have elsewhere : x ≠ p := by
      rintro rfl
      rw [low] at parse
      cases parse
    by_cases same : x = id
    · exact same ▸ Nat.le_of_lt (valid.depth_climbed valid' named relinked)
    · apply valid.depth_le valid'
      apply (valid'.lineage_nodup x).length_le_of_subset
      intro a member
      have alone : ∀ c, f.parent? c = some p → c = id := fun c => valid.only_child named free
      exact valid.mem_lineage_iff.mpr ((valid.above_exchanged valid' named alone relinked same
        elsewhere).mp (valid'.mem_lineage_iff.mp member))

end Climbing
end WellFormed

-- What goes is paid for by attached nodes, and what climbs by the depth of the coercions.
structure Pays (f g : Forest) (t : Tally) : Prop where
  valid : g.WellFormed
  fewer : f.attachedIds.length = g.attachedIds.length + (t.removed + t.merged)
  shallower : g.parseDepth + t.swapped ≤ f.parseDepth

theorem Sheds.pays (sheds : Sheds f g gone) (valid : f.WellFormed) (valid' : g.WellFormed)
    (distinct : gone.Nodup) (attached : ∀ x ∈ gone, f.isAttached x = true)
    (counted : gone.length = t.removed + t.merged) (still : t.swapped = 0) : Pays f g t where
  valid := valid'
  fewer := counted ▸ sheds.attachedIds_length valid distinct attached
  shallower := still ▸ sheds.parseDepth_le valid'

theorem Pays.trans {u : Tally} (one : Pays f g t) (two : Pays g h u) : Pays f h (t.add u) where
  valid := two.valid
  fewer := by
    have := one.fewer
    have := two.fewer
    simp only [Tally.add]
    omega
  shallower := by
    have := one.shallower
    have := two.shallower
    simp only [Tally.add]
    omega

theorem Move.pays (move : Move demand f t g) (valid : f.WellFormed) : Pays f g t := by
  cases move with
  | @drop id _ spare attached removed =>
    obtain ⟨p, named⟩ := spare.placed
    obtain ⟨valid', relinked⟩ := of_ok (valid.remove named) removed
    exact (valid.sheds_removed valid' named relinked).pays valid valid' (List.nodup_singleton id)
      (by simpa using attached) rfl rfl
  | clear =>
    refine valid.sheds_cleared.pays valid valid.pruneEmptyRoots (valid.rootsDistinct.filter _) ?_ ?_ rfl
    · intro r bare
      exact valid.attached_of_root (List.mem_of_mem_filter bare)
    · have parts := f.roots.length_eq_length_filter_add fun r => (f.children r).isEmpty
      simp only [pruneEmptyRoots]
      omega
  | @climb id p _ named attached parse low free swapped =>
    obtain ⟨valid', relinked⟩ :=
      of_ok (valid.swapWithParent named (valid.placed_of_attached named attached)) swapped
    have sheds := valid.sheds_exchanged valid' named free relinked low
    have listed : id ∈ g.attachedParses := by
      rw [valid'.mem_attachedParses_iff, sheds.attached, sheds.parses, attached, parse]
      simp
    refine ⟨valid', ?_, ?_⟩
    · simpa using sheds.attachedIds_length valid .nil (by simp)
    · exact sheds.parseDepth_lt valid' listed (valid.depth_climbed valid' named relinked)
  | @meet id p _ named attached parse upper removed =>
    have merged := valid.mergeParse id p
    have named' : (f.mergeParse id p).parent? id = some p := by
      rw [WellFormed.parent_mergeParse, named]
    obtain ⟨valid', relinked⟩ := of_ok (merged.remove named') removed
    have sheds := (valid.sheds_mergeParse id p).trans (merged.sheds_removed valid' named' relinked)
    exact sheds.pays valid valid' (List.nodup_singleton id) (by simpa using attached) rfl rfl
  | @join p kept twin _ attached found absorbed =>
    obtain ⟨apart, one, two, _⟩ := valid.twins_spec found
    obtain ⟨valid', _, relinked, _⟩ := of_ok (valid.absorb one two apart) absorbed
    have attached' := (valid.attached_iff_parent two).mpr attached
    exact (valid.sheds_absorbed valid' one two apart relinked).pays valid valid'
      (List.nodup_singleton twin) (by simpa using attached') rfl rfl

theorem Moves.pays (moves : Moves demand f t g) (valid : f.WellFormed) : Pays f g t := by
  induction moves with
  | none => exact ⟨valid, rfl, Nat.le_refl _⟩
  | more move _ ih =>
    have first := move.pays valid
    exact first.trans (ih first.valid)

theorem Move.still (move : Move demand f t g) (none : t.changes = 0) : g = f := by
  cases move with
  | clear =>
    have all : (f.roots.filter fun r => !(f.children r).isEmpty) = f.roots := by
      apply List.filter_sublist.eq_of_length_le
      simp only [Tally.changes, pruneEmptyRoots] at none
      omega
    unfold pruneEmptyRoots
    rw [all]
  | drop => cases none
  | climb => cases none
  | meet => cases none
  | join => cases none

theorem Moves.still (moves : Moves demand f t g) (none : t.changes = 0) : g = f := by
  induction moves with
  | none => rfl
  | more move _ ih =>
    rw [Tally.changes_add, Nat.add_eq_zero_iff] at none
    rw [ih none.2, move.still none.1]

namespace WellFormed

theorem round_still (valid : f.WellFormed) (done : f.round demand = .ok (g, t))
    (none : t.changes = 0) :
    g = f ∧ t = ⟨0, 0, 0, 1⟩ ∧ f.removeUnused demand = .ok (f, 0) ∧
      f.moveParseUp = .ok (f, ⟨0, 0⟩) ∧ f.mergeSiblings = .ok (f, 0) := by
  obtain ⟨g₁, removed, pruned, valid₁, _⟩ := valid.removeUnused demand
  obtain ⟨g₂, ⟨swapped, met⟩, climbed, valid₂, _⟩ := valid₁.moveParseUp demand
  obtain ⟨g₃, merged, joined, _⟩ := valid₂.mergeSiblings demand
  unfold Forest.round at done
  simp only [pruned, climbed, joined, bind_ok] at done
  cases done
  obtain ⟨⟨rfl, rfl⟩, rfl, rfl⟩ : (removed = 0 ∧ swapped = 0) ∧ met = 0 ∧ merged = 0 := by
    simpa [Tally.changes] using none
  have climbs : Moves demand g₁ ⟨0, 0, 0, 0⟩ g₂ := valid₁.moves_moveParseUp climbed
  have joins : Moves demand g₂ ⟨0, 0, 0, 0⟩ g := valid₂.moves_mergeSiblings joined
  obtain rfl := (valid.moves_removeUnused pruned).still rfl
  obtain rfl := climbs.still rfl
  obtain rfl := joins.still rfl
  exact ⟨rfl, rfl, pruned, climbed, joined⟩

-- Every round but the last is paid for, so that the last comes before the bound.
theorem rounds_end (valid : f.WellFormed) (bound : Nat) (total : Tally)
    (enough : f.attachedIds.length + f.parseDepth < bound) :
    ∃ g k before, Forest.rounds demand bound f total = .ok (g, before.add ⟨0, 0, 0, 1⟩) ∧
      k < bound ∧ Forest.rounds demand k f total = .ok (g, before) ∧
      before.rounds = total.rounds + k ∧ g.WellFormed ∧ g.round demand = .ok (g, ⟨0, 0, 0, 1⟩) := by
  induction bound generalizing f total with
  | zero => omega
  | succ bound ih =>
    obtain ⟨g, once, done, valid', _⟩ := valid.round demand
    by_cases none : once.changes = 0
    · obtain ⟨rfl, rfl, _⟩ := valid.round_still done none
      refine ⟨g, 0, total, ?_, Nat.succ_pos bound, rfl, rfl, valid, done⟩
      unfold Forest.rounds
      simp only [done, bind_ok]
      rfl
    · obtain ⟨u, rfl, moves⟩ := valid.moves_round done
      obtain ⟨_, fewer, shallower⟩ := moves.pays valid
      have changed : u.changes ≠ 0 := by simpa [Tally.changes, Tally.add] using none
      have less : g.attachedIds.length + g.parseDepth < bound := by
        unfold Tally.changes at changed
        omega
      obtain ⟨h, k, before, rest, within, part, counted, valid'', last⟩ :=
        ih valid' (total.add (u.add ⟨0, 0, 0, 1⟩)) less
      refine ⟨h, k + 1, before, ?_, Nat.succ_lt_succ within, ?_, ?_, valid'', last⟩
      · unfold Forest.rounds
        simp only [done, bind_ok, none, if_false]
        exact rest
      · unfold Forest.rounds
        simp only [done, bind_ok, none, if_false]
        exact part
      · have untold := moves.rounds_zero
        simp only [Tally.add, untold] at counted
        omega

end WellFormed

-- What is attached goes only by being counted, the counts stay below the attached nodes and the
-- depths of the coercions together, and any larger bound lets the last round change nothing. Both ends of
-- every link agree in the end.
theorem optimize_converges (valid : f.WellFormed) (demand : Demand) (bound : Nat) :
    ∃ g tally, f.optimize demand bound = .ok (g, tally) ∧ g.linksAgree = true ∧
      f.attachedIds.length = g.attachedIds.length + (tally.removed + tally.merged) ∧
      tally.removed + tally.merged + tally.swapped ≤ f.attachedIds.length + f.parseDepth ∧
      (f.attachedIds.length + f.parseDepth < bound →
        (∃ before, rounds demand before.rounds f Tally.zero = .ok (g, before) ∧
          before.rounds < bound ∧ g.round demand = .ok (g, ⟨0, 0, 0, 1⟩) ∧
          tally = before.add ⟨0, 0, 0, 1⟩) ∧
        g.removeUnused demand = .ok (g, 0) ∧ g.moveParseUp = .ok (g, ⟨0, 0⟩) ∧
        g.mergeSiblings = .ok (g, 0)) := by
  obtain ⟨g, tally, done, valid', _⟩ := valid.optimize demand bound
  obtain ⟨u, n, counted, moves⟩ := valid.moves_rounds _ _ done
  obtain ⟨_, fewer, shallower⟩ := moves.pays valid
  refine ⟨g, tally, done, valid'.linksAgree, ?_, ?_, fun enough => ?_⟩
  · simpa [counted, Tally.add, Tally.zero] using fewer
  · simp only [counted, Tally.add, Tally.zero]
    omega
  · obtain ⟨h, k, before, done', within, part, count, _, last⟩ :=
      valid.rounds_end (max bound 1) Tally.zero (Nat.lt_of_lt_of_le enough (Nat.le_max_left ..))
    unfold Forest.optimize at done
    rw [done'] at done
    cases done
    obtain ⟨_, _, pruned, climbed, joined⟩ := valid'.round_still last rfl
    have rounds : before.rounds = k := by simpa [Tally.zero] using count
    exact ⟨⟨before, by rw [rounds, part], by omega, last, rfl⟩, pruned, climbed, joined⟩

-- One branch coerces behind its filter, the other before its formula: the coercion climbs, meets its
-- twin, and a leaf goes. The second round changes nothing.
theorem optimize_converges_two_branches :
    ∃ (f g : Forest) (tally : Tally), f.WellFormed ∧ f.attachedIds.length = 8 ∧ f.parseDepth = 3 ∧
      f.optimize ((Demand.empty.request "v_main").request "v_raw") 12 = .ok (g, tally) ∧
      tally = ⟨1, 1, 1, 2⟩ ∧ g.linksAgree = true ∧ g.attachedIds.length = 6 ∧
      g.moveParseUp = .ok (g, ⟨0, 0⟩) := by
  have source := WellFormed.empty.addRoot "source" (.source (.named "cars"))
  have filtered := (source.addUnder (p := ⟨0⟩) (by decide) "filter" (.filter "datum.year" .empty)).1
  have coerced := (filtered.addUnder (p := ⟨1⟩) (by decide) "parse"
    (.parse (Keyed.empty.put "year" .number))).1
  have main := (coerced.addUnder (p := ⟨2⟩) (by decide) "main" (.output (.fresh "v_main" .main))).1
  have coerced' := (main.addUnder (p := ⟨0⟩) (by decide) "parse"
    (.parse (Keyed.empty.put "year" .number))).1
  have derived := (coerced'.addUnder (p := ⟨4⟩) (by decide) "formula" (.formula "datum.year" "y")).1
  have raw := (derived.addUnder (p := ⟨5⟩) (by decide) "raw" (.output (.fresh "v_raw" .raw))).1
  have valid := (raw.addUnder (p := ⟨0⟩) (by decide) "identifier" .identifier).1
  obtain ⟨g, tally, done, agree, fewer, _, converged⟩ :=
    optimize_converges valid ((Demand.empty.request "v_main").request "v_raw") 12
  have counted : tally = ⟨1, 1, 1, 2⟩ := by
    have tallies := congrArg (fun r => r.toOption.map fun r => r.2) done
    exact Option.some.inj (tallies.symm.trans (by decide +kernel))
  obtain ⟨_, _, settled, _⟩ := converged (by decide)
  subst counted
  have left : g.attachedIds.length + 2 = 8 := fewer.symm.trans (by decide)
  exact ⟨_, g, _, valid, by decide, by decide, done, rfl, agree, by omega, settled⟩

end Viewflow.Flow.Forest
