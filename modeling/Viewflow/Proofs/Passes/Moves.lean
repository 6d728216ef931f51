import Viewflow.Proofs.Passes.Optimize

namespace Viewflow.Flow

namespace Tally

theorem zero_add (t : Tally) : zero.add t = t := by simp [add, zero]

theorem add_zero (t : Tally) : t.add zero = t := by simp [add, zero]

theorem add_assoc (a b c : Tally) : (a.add b).add c = a.add (b.add c) := by
  simp [add, Nat.add_assoc]

theorem changes_add (a b : Tally) : (a.add b).changes = a.changes + b.changes := by
  simp only [changes, add]
  omega

end Tally

namespace Forest

variable {f g h : Forest} {demand : Demand} {id p : NodeId} {ids : List NodeId} {t u : Tally}

-- What the passes do to a forest in one go, with what they count for it.
inductive Move (demand : Demand) (f : Forest) : Tally → Forest → Prop where
  | drop {id : NodeId} {g : Forest} : f.Spare demand id → f.isAttached id = true →
      f.remove id = .ok g → Move demand f ⟨1, 0, 0, 0⟩ g
  | clear : Move demand f ⟨f.roots.length - f.pruneEmptyRoots.roots.length, 0, 0, 0⟩
      f.pruneEmptyRoots
  | climb {id p : NodeId} {g : Forest} : f.parent? id = some p → f.isAttached id = true →
      (f.step id).isParse = true → (f.step p).isParse = false → f.blocks p id = false →
      f.swapWithParent id = .ok g → Move demand f ⟨0, 1, 0, 0⟩ g
  | meet {id p : NodeId} {g : Forest} : f.parent? id = some p → f.isAttached id = true →
      (f.step id).isParse = true → (f.step p).isParse = true →
      (f.mergeParse id p).remove id = .ok g → Move demand f ⟨0, 0, 1, 0⟩ g
  | join {p kept twin : NodeId} {g : Forest} : f.isAttached p = true →
      f.firstTwins? (f.children p) = some (kept, twin) → f.absorb kept twin = .ok g →
      Move demand f ⟨0, 0, 1, 0⟩ g

inductive Moves (demand : Demand) : Forest → Tally → Forest → Prop where
  | none {f : Forest} : Moves demand f .zero f
  | more {f g h : Forest} {t u : Tally} : Move demand f t g → Moves demand g u h →
      Moves demand f (t.add u) h

theorem Moves.one (move : Move demand f t g) : Moves demand f t g := by
  have moves := Moves.more move .none
  rwa [Tally.add_zero] at moves

theorem Moves.trans (first : Moves demand f t g) (second : Moves demand g u h) :
    Moves demand f (t.add u) h := by
  induction first with
  | none => rwa [Tally.zero_add]
  | more move _ ih =>
    rw [Tally.add_assoc]
    exact .more move (ih second)

inductive Drops (demand : Demand) : Forest → Nat → Forest → Prop where
  | none {f : Forest} : Drops demand f 0 f
  | drop {f g h : Forest} {id : NodeId} {n : Nat} : f.Spare demand id → f.isAttached id = true →
      f.remove id = .ok g → Drops demand g n h → Drops demand f (n + 1) h

inductive Hoists : Forest → HoistCount → Forest → Prop where
  | none {f : Forest} : Hoists f ⟨0, 0⟩ f
  | climb {f g h : Forest} {id p : NodeId} {s m : Nat} : f.parent? id = some p →
      f.isAttached id = true → (f.step id).isParse = true → (f.step p).isParse = false →
      f.blocks p id = false → f.swapWithParent id = .ok g → Hoists g ⟨s, m⟩ h →
      Hoists f ⟨s + 1, m⟩ h
  | meet {f g h : Forest} {id p : NodeId} {s m : Nat} : f.parent? id = some p →
      f.isAttached id = true → (f.step id).isParse = true → (f.step p).isParse = true →
      (f.mergeParse id p).remove id = .ok g → Hoists g ⟨s, m⟩ h → Hoists f ⟨s, m + 1⟩ h

inductive Joins : Forest → Nat → Forest → Prop where
  | none {f : Forest} : Joins f 0 f
  | join {f g h : Forest} {p kept twin : NodeId} {m : Nat} : f.isAttached p = true →
      f.firstTwins? (f.children p) = some (kept, twin) → f.absorb kept twin = .ok g →
      Joins g m h → Joins f (m + 1) h

theorem Drops.trans {m n : Nat} (first : Drops demand f m g) (second : Drops demand g n h) :
    Drops demand f (m + n) h := by
  induction first with
  | none => simpa using second
  | drop spare attached removed _ ih =>
    rw [Nat.add_right_comm]
    exact .drop spare attached removed (ih second)

theorem Drops.moves {n : Nat} (drops : Drops demand f n g) : Moves demand f ⟨n, 0, 0, 0⟩ g := by
  induction drops with
  | none => exact .none
  | drop spare attached removed _ ih =>
    have moves := Moves.more (.drop spare attached removed) ih
    simpa [Tally.add, Nat.add_comm] using moves

theorem Hoists.trans {n n' : HoistCount} (first : Hoists f n g) (second : Hoists g n' h) :
    Hoists f ⟨n.swapped + n'.swapped, n.merged + n'.merged⟩ h := by
  induction first with
  | none => simpa using second
  | climb named attached parse low free swapped _ ih =>
    rw [Nat.add_right_comm]
    exact .climb named attached parse low free swapped (ih second)
  | meet named attached parse upper removed _ ih =>
    rw [Nat.add_right_comm]
    exact .meet named attached parse upper removed (ih second)

theorem Hoists.moves {n : HoistCount} (hoists : Hoists f n g) :
    Moves demand f ⟨0, n.swapped, n.merged, 0⟩ g := by
  induction hoists with
  | none => exact .none
  | climb named attached parse low free swapped _ ih =>
    have moves := Moves.more (.climb named attached parse low free swapped) ih
    simpa [Tally.add, Nat.add_comm] using moves
  | meet named attached parse upper removed _ ih =>
    have moves := Moves.more (.meet named attached parse upper removed) ih
    simpa [Tally.add, Nat.add_comm] using moves

theorem Joins.trans {m n : Nat} (first : Joins f m g) (second : Joins g n h) :
    Joins f (m + n) h := by
  induction first with
  | none => simpa using second
  | join attached found absorbed _ ih =>
    rw [Nat.add_right_comm]
    exact .join attached found absorbed (ih second)

theorem Joins.moves {m : Nat} (joins : Joins f m g) : Moves demand f ⟨0, 0, m, 0⟩ g := by
  induction joins with
  | none => exact .none
  | join attached found absorbed _ ih =>
    have moves := Moves.more (.join attached found absorbed) ih
    simpa [Tally.add, Nat.add_comm] using moves

theorem Moves.rounds_zero (moves : Moves demand f t g) : t.rounds = 0 := by
  induction moves with
  | none => rfl
  | more move _ ih => cases move <;> simpa [Tally.add] using ih

namespace WellFormed

section Bypassed

variable {q x : NodeId} {down : NodeId → List NodeId} (valid : f.WellFormed) (valid' : g.WellFormed)
  (named : f.parent? id = some p) (relinked : Relinked f g (bypass f.parent? id q) down f.roots)
include valid valid' named relinked

theorem attached_bypassed
    (tops : ∀ r x, f.parent? r = none → x ≠ id → (r ∈ g.lineage x ↔ r ∈ f.lineage x)) :
    g.isAttached x = (f.isAttached x && decide (x ≠ id)) := by
  by_cases same : x = id
  · subst same
    have top : g.parent? x = none := (relinked.parent x).trans bypass_self
    have loose : g.isAttached x = false := by
      rw [Bool.eq_false_iff]
      intro attached
      exact valid.not_root named (relinked.roots ▸ valid'.root_of_attached_top attached top)
    simp [loose]
  · rw [Bool.eq_iff_iff, Bool.and_eq_true, decide_eq_true_eq, valid'.isAttached_iff,
      valid.isAttached_iff, relinked.roots]
    simp only [← valid'.mem_lineage_iff, ← valid.mem_lineage_iff]
    constructor
    · rintro ⟨r, root, above⟩
      exact ⟨⟨r, root, (tops r x (valid.rootTop r root) same).mp above⟩, same⟩
    · rintro ⟨⟨r, root, above⟩, _⟩
      exact ⟨r, root, (tops r x (valid.rootTop r root) same).mpr above⟩

omit relinked in
theorem attached_removed (relinked : Relinked f g (bypass f.parent? id p) down f.roots) (x : NodeId) :
    g.isAttached x = (f.isAttached x && decide (x ≠ id)) := by
  refine valid.attached_bypassed valid' named relinked ?_
  intro r x top other
  have apart : r ≠ id := by
    rintro rfl
    rw [named] at top
    cases top
  simp [valid.lineage_removed valid' named relinked other, apart]

omit relinked in
theorem attached_without {kept : NodeId} (one : f.parent? kept = some p) (apart : kept ≠ id)
    (relinked : Relinked f g (bypass f.parent? id kept) down f.roots) (x : NodeId) :
    g.isAttached x = (f.isAttached x && decide (x ≠ id)) := by
  refine valid.attached_bypassed valid' named relinked ?_
  intro r x top other
  have below : ∀ a, f.parent? a = some p → r ≠ a := by
    rintro a under rfl
    rw [under] at top
    cases top
  rw [valid.lineage_absorbed valid' one named apart relinked other, List.mem_map]
  constructor
  · rintro ⟨a, member, moved⟩
    by_cases same : a = id
    · rw [if_pos same] at moved
      exact absurd moved.symm (below kept one)
    · rw [if_neg same] at moved
      exact moved ▸ member
  · intro member
    exact ⟨r, member, if_neg (below id named)⟩

end Bypassed

theorem drops_removeAll (valid : f.WellFormed) (distinct : ids.Nodup)
    (spare : ∀ id ∈ ids, f.Spare demand id) (attached : ∀ id ∈ ids, f.isAttached id = true)
    (done : f.removeAll ids = .ok g) : Drops demand f ids.length g := by
  induction ids generalizing f with
  | nil =>
    cases done
    exact .none
  | cons id ids ih =>
    rw [List.nodup_cons] at distinct
    have first := spare id (List.mem_cons_self ..)
    obtain ⟨p, named⟩ := first.placed
    obtain ⟨h, removed, valid', relinked⟩ := valid.remove named
    unfold Forest.removeAll at done
    rw [List.foldlM_cons, removed] at done
    have other : ∀ x ∈ ids, x ≠ id := by
      rintro x member rfl
      exact distinct.1 member
    have spare' : ∀ x ∈ ids, h.Spare demand x := by
      intro x member
      exact first.still (spare x (List.mem_cons_of_mem _ member)) valid named relinked
        (other x member)
    have attached' : ∀ x ∈ ids, h.isAttached x = true := by
      intro x member
      rw [valid.attached_removed valid' named relinked]
      simp [attached x (List.mem_cons_of_mem _ member), other x member]
    exact .drop first (attached id (List.mem_cons_self ..)) removed
      (ih valid' distinct.2 spare' attached' done)

theorem drops_pruneRounds (valid : f.WellFormed) (fuel removed n : Nat)
    (done : Forest.pruneRounds demand fuel f removed = .ok (g, n)) :
    ∃ k, n = removed + k ∧ Drops demand f k g := by
  induction fuel generalizing f removed with
  | zero =>
    cases done
    exact ⟨0, rfl, .none⟩
  | succ fuel ih =>
    unfold Forest.pruneRounds at done
    by_cases none : (f.deadLeaves demand).isEmpty = true
    · rw [if_pos none] at done
      cases done
      exact ⟨0, rfl, .none⟩
    · have distinct := valid.deadLeaves_nodup demand
      obtain ⟨h, gone, valid', _⟩ := valid.removeAll distinct fun id => spare_of_mem_deadLeaves
      have attached : ∀ id ∈ f.deadLeaves demand, f.isAttached id = true := fun id dead =>
        valid.mem_walkAll_iff.mp (List.mem_of_mem_filter (List.mem_of_mem_filter dead))
      have first := valid.drops_removeAll distinct (fun id => spare_of_mem_deadLeaves) attached gone
      rw [if_neg none] at done
      simp only [gone, bind_ok] at done
      obtain ⟨k, counted, rest⟩ := ih valid' _ done
      exact ⟨(f.deadLeaves demand).length + k, by omega, first.trans rest⟩

theorem moves_removeUnused (valid : f.WellFormed) {n : Nat}
    (done : f.removeUnused demand = .ok (g, n)) : Moves demand f ⟨n, 0, 0, 0⟩ g := by
  obtain ⟨h, removed, pruned, _⟩ := valid.pruneRounds demand (f.size + 1) 0
  obtain ⟨k, rfl, drops⟩ := valid.drops_pruneRounds _ _ _ pruned
  unfold Forest.removeUnused at done
  simp only [pruned, bind_ok] at done
  cases done
  simpa [Tally.add] using drops.moves.trans (.one .clear)

theorem hoists_hoist (valid : f.WellFormed) (attached : f.isAttached id = true)
    (parse : (f.step id).isParse = true) (fuel : Nat) (n n' : HoistCount)
    (done : Forest.hoist id fuel f n = .ok (g, n')) :
    ∃ s m, n' = ⟨n.swapped + s, n.merged + m⟩ ∧ Hoists f ⟨s, m⟩ g := by
  induction fuel generalizing f n with
  | zero =>
    cases done
    exact ⟨0, 0, rfl, .none⟩
  | succ fuel ih =>
    unfold Forest.hoist at done
    cases named : f.parent? id with
    | none =>
      simp only [named] at done
      cases done
      exact ⟨0, 0, rfl, .none⟩
    | some p =>
      by_cases meets : (f.step p).isParse = true
      · obtain ⟨h, removed, _, _, _⟩ := valid.merged .empty named parse
        simp only [named, meets, if_true, removed, bind_ok] at done
        cases done
        exact ⟨0, 1, rfl, .meet named attached parse meets removed .none⟩
      · by_cases blocked : f.blocks p id = true
        · simp only [named, meets, blocked, if_true, Bool.false_eq_true, if_false] at done
          cases done
          exact ⟨0, 0, rfl, .none⟩
        · obtain ⟨h, swapped, valid', attached', parses, _⟩ :=
            valid.exchanged .empty named attached parse (inside_of_free blocked)
          simp only [named, meets, blocked, Bool.false_eq_true, if_false, swapped, bind_ok] at done
          obtain ⟨s, m, counted, rest⟩ := ih valid' attached' ((parses id).trans parse) _ done
          refine ⟨s + 1, m, by simp [counted, Nat.add_assoc, Nat.add_comm 1 s], ?_⟩
          exact .climb named attached parse (Bool.eq_false_iff.mpr meets)
            (Bool.eq_false_iff.mpr blocked) swapped rest

theorem hoists_hoistEach (valid : f.WellFormed) (n n' : HoistCount) (ids : List NodeId)
    (parses : ∀ id ∈ ids, (f.step id).isParse = true)
    (done : ids.foldlM Forest.hoistNext (f, n) = .ok (g, n')) :
    ∃ s m, n' = ⟨n.swapped + s, n.merged + m⟩ ∧ Hoists f ⟨s, m⟩ g := by
  induction ids generalizing f n with
  | nil =>
    cases done
    exact ⟨0, 0, rfl, .none⟩
  | cons id ids ih =>
    have parse := parses id (List.mem_cons_self ..)
    obtain ⟨h, middle, next, valid', kept, _⟩ := valid.hoistNext .empty parse n
    rw [List.foldlM_cons, next] at done
    have parses' : ∀ x ∈ ids, (h.step x).isParse = true := fun x member =>
      (kept x).trans (parses x (List.mem_cons_of_mem _ member))
    obtain ⟨s, m, counted, rest⟩ := ih valid' middle parses' done
    have first : ∃ s m, middle = ⟨n.swapped + s, n.merged + m⟩ ∧ Hoists f ⟨s, m⟩ h := by
      unfold Forest.hoistNext at next
      by_cases attached : f.isAttached id = true
      · rw [if_pos attached] at next
        exact valid.hoists_hoist attached parse _ _ _ next
      · rw [if_neg attached] at next
        cases next
        exact ⟨0, 0, rfl, .none⟩
    obtain ⟨s₀, m₀, rfl, hoists⟩ := first
    exact ⟨s₀ + s, m₀ + m, by simp [counted, Nat.add_assoc], hoists.trans rest⟩

theorem hoists_moveParseUp (valid : f.WellFormed) {n : HoistCount}
    (done : f.moveParseUp = .ok (g, n)) : Hoists f n g := by
  obtain ⟨s, m, rfl, hoists⟩ := valid.hoists_hoistEach _ _ _
    (fun _ member => (List.mem_filter.mp member).2) done
  simpa using hoists

theorem moves_moveParseUp (valid : f.WellFormed) {n : HoistCount}
    (done : f.moveParseUp = .ok (g, n)) : Moves demand f ⟨0, n.swapped, n.merged, 0⟩ g :=
  (valid.hoists_moveParseUp done).moves

theorem joins_mergeChildren (valid : f.WellFormed) (attached : f.isAttached p = true)
    (fuel merged n : Nat) (done : Forest.mergeChildren p fuel f merged = .ok (g, n)) :
    ∃ m, n = merged + m ∧ Joins f m g := by
  induction fuel generalizing f merged with
  | zero =>
    cases done
    exact ⟨0, rfl, .none⟩
  | succ fuel ih =>
    unfold Forest.mergeChildren at done
    cases found : f.firstTwins? (f.children p) with
    | none =>
      rw [found] at done
      cases done
      exact ⟨0, rfl, .none⟩
    | some twins =>
      obtain ⟨kept, twin⟩ := twins
      obtain ⟨apart, one, two, _⟩ := valid.twins_spec found
      obtain ⟨h, absorbed, valid', _, relinked, _⟩ := valid.absorb one two apart
      simp only [found, absorbed, bind_ok] at done
      have attached' : h.isAttached p = true := by
        rw [valid.attached_without valid' two one apart relinked]
        simp [attached, (valid.ne_parent two).symm]
      obtain ⟨m, counted, rest⟩ := ih valid' attached' _ done
      exact ⟨m + 1, by omega, .join attached found absorbed rest⟩

theorem joins_mergeEach (valid : f.WellFormed) (merged n : Nat) (ids : List NodeId)
    (done : ids.foldlM Forest.mergeNext (f, merged) = .ok (g, n)) :
    ∃ m, n = merged + m ∧ Joins f m g := by
  induction ids generalizing f merged with
  | nil =>
    cases done
    exact ⟨0, rfl, .none⟩
  | cons id ids ih =>
    obtain ⟨h, middle, next, valid', _⟩ := valid.mergeNext .empty merged id
    rw [List.foldlM_cons, next] at done
    obtain ⟨m, counted, rest⟩ := ih valid' middle done
    have first : ∃ m, middle = merged + m ∧ Joins f m h := by
      unfold Forest.mergeNext at next
      by_cases attached : f.isAttached id = true
      · rw [if_pos attached] at next
        exact valid.joins_mergeChildren attached _ _ _ next
      · rw [if_neg attached] at next
        cases next
        exact ⟨0, rfl, .none⟩
    obtain ⟨m₀, rfl, joins⟩ := first
    exact ⟨m₀ + m, by omega, joins.trans rest⟩

theorem joins_mergeSiblings (valid : f.WellFormed) {n : Nat} (done : f.mergeSiblings = .ok (g, n)) :
    Joins f n g := by
  obtain ⟨m, rfl, joins⟩ := valid.joins_mergeEach _ _ _ done
  simpa using joins

theorem moves_mergeSiblings (valid : f.WellFormed) {n : Nat} (done : f.mergeSiblings = .ok (g, n)) :
    Moves demand f ⟨0, 0, n, 0⟩ g :=
  (valid.joins_mergeSiblings done).moves

theorem moves_round (valid : f.WellFormed) (done : f.round demand = .ok (g, t)) :
    ∃ u, t = u.add ⟨0, 0, 0, 1⟩ ∧ Moves demand f u g := by
  obtain ⟨g₁, removed, pruned, valid₁, _⟩ := valid.removeUnused demand
  obtain ⟨g₂, hoisted, climbed, valid₂, _⟩ := valid₁.moveParseUp demand
  obtain ⟨g₃, merged, joined, _⟩ := valid₂.mergeSiblings demand
  have moves : Moves demand f _ g₃ := ((valid.moves_removeUnused pruned).trans
    (valid₁.moves_moveParseUp climbed)).trans (valid₂.moves_mergeSiblings joined)
  unfold Forest.round at done
  simp only [pruned, climbed, joined, bind_ok] at done
  cases done
  exact ⟨_, by simp [Tally.add], moves⟩

theorem moves_rounds (valid : f.WellFormed) (bound : Nat) (total : Tally)
    (done : Forest.rounds demand bound f total = .ok (g, t)) :
    ∃ u n, t = total.add (u.add ⟨0, 0, 0, n⟩) ∧ Moves demand f u g := by
  induction bound generalizing f total with
  | zero =>
    cases done
    exact ⟨.zero, 0, rfl, .none⟩
  | succ bound ih =>
    obtain ⟨h, once, first, valid', _⟩ := valid.round demand
    obtain ⟨u, rfl, moves⟩ := valid.moves_round first
    unfold Forest.rounds at done
    simp only [first, bind_ok] at done
    split at done
    · cases done
      exact ⟨u, 1, rfl, moves⟩
    · obtain ⟨v, n, counted, rest⟩ := ih valid' _ done
      refine ⟨u.add v, n + 1, ?_, moves.trans rest⟩
      rw [counted]
      simp only [Tally.add, Tally.mk.injEq]
      omega

end WellFormed
end Forest
end Viewflow.Flow
