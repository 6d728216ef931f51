import Mathlib.Data.List.Flatten
import Viewflow.Proofs.Passes.Fixpoint

namespace Viewflow.Flow.Forest

variable {f g : Forest} {kept twin a b p q x y : NodeId} {ids order before : List NodeId}
  {down : NodeId → List NodeId}

theorem pair_trans {l : List NodeId} (distinct : l.Nodup) (first : [a, b].Sublist l)
    (second : [b, x].Sublist l) : [a, x].Sublist l := by
  induction l with
  | nil => cases first
  | cons c l ih =>
    obtain ⟨fresh, distinct⟩ := List.nodup_cons.mp distinct
    have later : [b, x].Sublist l := by
      cases second with
      | cons _ later => exact later
      | cons_cons _ _ =>
        cases first with
        | cons _ first => exact absurd (first.subset (by simp)) fresh
        | cons_cons _ first => exact absurd (first.subset (by simp)) fresh
    cases first with
    | cons _ first => exact (ih distinct first later).cons c
    | cons_cons _ _ =>
      exact (List.singleton_sublist.mpr (later.subset (by simp))).cons_cons a

theorem pair_irrefl {l : List NodeId} (distinct : l.Nodup) : ¬ [a, a].Sublist l := by
  intro twice
  simpa using distinct.sublist twice

theorem pair_append {l m : List NodeId} (pair : [a, b].Sublist (l ++ m)) :
    [a, b].Sublist l ∨ (a ∈ l ∧ b ∈ m) ∨ [a, b].Sublist m := by
  obtain ⟨s, t, both, left, right⟩ := List.sublist_append_iff.mp pair
  cases s with
  | nil => exact .inr (.inr (both ▸ right))
  | cons c s =>
    cases s with
    | nil =>
      obtain ⟨rfl, rfl⟩ : a = c ∧ [b] = t := by simpa using both
      exact .inr (.inl ⟨List.singleton_sublist.mp left, List.singleton_sublist.mp right⟩)
    | cons d s =>
      obtain ⟨rfl, rfl, rest⟩ : a = c ∧ b = d ∧ [] = s ++ t := by simpa using both
      obtain ⟨rfl, rfl⟩ : s = [] ∧ t = [] := by simpa using rest
      exact .inl left

theorem firstTwins_first (found : f.firstTwins? ids = some (kept, twin)) (pair : [a, b].Sublist ids)
    (silent : (f.step a).isOutput = false) (equal : (f.step a).same (f.step b) = true) :
    a = kept ∧ (b = twin ∨ [twin, b].Sublist ids) ∨ [kept, a].Sublist ids := by
  induction ids with
  | nil => cases found
  | cons id later ih =>
    unfold firstTwins? at found
    cases twins : f.twinOf? id later with
    | none =>
      rw [twins] at found
      cases pair with
      | cons _ pair =>
        rcases ih found pair with ⟨same, rfl | behind⟩ | behind
        · exact .inl ⟨same, .inl rfl⟩
        · exact .inl ⟨same, .inr (behind.cons id)⟩
        · exact .inr (behind.cons id)
      | cons_cons _ single =>
        unfold twinOf? at twins
        rw [silent, if_neg Bool.false_ne_true, List.find?_eq_none] at twins
        exact absurd equal (twins b (List.singleton_sublist.mp single))
    | some other =>
      rw [twins] at found
      cases found
      cases pair with
      | cons _ pair =>
        exact .inr ((List.singleton_sublist.mpr (pair.subset (by simp))).cons_cons kept)
      | cons_cons _ single =>
        unfold twinOf? at twins
        rw [silent, if_neg Bool.false_ne_true, List.find?_eq_some_iff_append] at twins
        obtain ⟨_, front, back, rfl, none⟩ := twins
        refine .inl ⟨rfl, ?_⟩
        rcases List.mem_append.mp (List.singleton_sublist.mp single) with listed | listed
        · exact absurd equal (by simpa using none b listed)
        · rcases List.mem_cons.mp listed with same | listed
          · exact .inl same
          · exact .inr ((((List.singleton_sublist.mpr listed).cons_cons twin).trans
              (List.sublist_append_right front _)).cons _)

-- The visits come to a node before what is below it, and to a sibling with all that is below it
-- before its twins.
structure Ordered (f : Forest) (order : List NodeId) : Prop where
  valid : f.WellFormed
  higher : ∀ x p, f.isAttached x = true → f.parent? x = some p → [p, x].Sublist order
  twins : ∀ p a b, f.isAttached p = true → [a, b].Sublist (f.children p) →
    (f.step a).same (f.step b) = true → ∀ x y, Above f.parent? a x → Above f.parent? b y →
    [x, y].Sublist order

theorem WellFormed.ids_sublist (valid : f.WellFormed) (attached : f.isAttached p = true) :
    (f.tree p).ids.Sublist f.walkAll := by
  obtain ⟨r, root, above⟩ := valid.isAttached_iff.mp attached
  clear attached
  induction above with
  | here =>
    rw [valid.walkAll_eq]
    simpa using (List.singleton_sublist.mpr root).flatMap fun r => (f.tree r).ids
  | @under id p named _ ih =>
    refine List.Sublist.trans ?_ ih
    rw [valid.ids_tree p]
    have listed := List.singleton_sublist.mpr (valid.mem_children_iff.mpr named)
    simpa using (listed.flatMap fun c => (f.tree c).ids).cons p

theorem WellFormed.ordered_walkAll (valid : f.WellFormed) : f.Ordered f.walkAll := by
  refine ⟨valid, ?_, ?_⟩
  · intro x p attached named
    have listed := valid.ids_sublist ((valid.attached_iff_parent named).mp attached)
    rw [valid.ids_tree] at listed
    refine List.Sublist.trans (.cons_cons p ?_) listed
    refine List.singleton_sublist.mpr (List.mem_flatMap.mpr ⟨x, valid.mem_children_iff.mpr named, ?_⟩)
    exact (valid.mem_ids_iff x x).mpr .here
  · intro p a b attached pair _ x y left right
    have listed := valid.ids_sublist attached
    rw [valid.ids_tree] at listed
    refine List.Sublist.trans ?_ ((List.sublist_cons_self ..).trans listed)
    have below : ((f.tree a).ids ++ (f.tree b).ids).Sublist
        ((f.children p).flatMap fun c => (f.tree c).ids) := by
      simpa using pair.flatMap fun c => (f.tree c).ids
    refine List.Sublist.trans ?_ below
    exact (List.singleton_sublist.mpr ((valid.mem_ids_iff a x).mpr left)).append
      (List.singleton_sublist.mpr ((valid.mem_ids_iff b y).mpr right))

theorem above_absorbed (valid : f.WellFormed) (valid' : g.WellFormed) (one : f.parent? kept = some p)
    (two : f.parent? twin = some p) (apart : kept ≠ twin)
    (relinked : Relinked f g (bypass f.parent? twin kept) down f.roots) (above : Above g.parent? a x) :
    Above f.parent? a x ∨ a = kept ∧ Above f.parent? twin x := by
  by_cases gone : x = twin
  · have top : g.parent? x = none := by rw [relinked.parent, gone, bypass_self]
    exact .inl (above.eq_of_top top ▸ .here)
  · have member := valid'.mem_lineage_iff.mpr above
    rw [valid.lineage_absorbed valid' one two apart relinked gone, List.mem_map] at member
    obtain ⟨b, member, moved⟩ := member
    by_cases same : b = twin
    · rw [if_pos same] at moved
      exact .inr ⟨moved.symm, same ▸ valid.mem_lineage_iff.mp member⟩
    · rw [if_neg same] at moved
      exact .inl (moved ▸ valid.mem_lineage_iff.mp member)

theorem Ordered.handed (ordered : f.Ordered order) (attached : f.isAttached p = true)
    (found : f.firstTwins? (f.children p) = some (kept, twin))
    (pair : [a, b].Sublist (f.children kept ++ f.children twin))
    (same : (f.step a).same (f.step b) = true) (left : Above f.parent? a x)
    (right : Above f.parent? b y) : [x, y].Sublist order := by
  have valid := ordered.valid
  obtain ⟨both, _, equal⟩ := firstTwins_spec found
  obtain ⟨_, one, two, _⟩ := valid.twins_spec found
  have attachedKept := (valid.attached_iff_parent one).mpr attached
  have attachedTwin := (valid.attached_iff_parent two).mpr attached
  rcases pair_append pair with own | ⟨first, second⟩ | handed
  · exact ordered.twins kept a b attachedKept own same x y left right
  · exact ordered.twins p kept twin attached both equal x y
      ((Above.parent (valid.pointsBack kept a first)).trans left)
      ((Above.parent (valid.pointsBack twin b second)).trans right)
  · exact ordered.twins twin a b attachedTwin handed same x y left right

section Absorbed

variable (ordered : f.Ordered order) (attached : f.isAttached p = true)
  (found : f.firstTwins? (f.children p) = some (kept, twin)) (valid' : g.WellFormed)
  (relinked : Relinked f g (bypass f.parent? twin kept) down f.roots)
include ordered attached found valid' relinked

theorem Ordered.erased (pair : [a, b].Sublist ((f.children p).erase twin))
    (same : (f.step a).same (f.step b) = true) (left : Above g.parent? a x)
    (right : Above g.parent? b y) : [x, y].Sublist order := by
  have valid := ordered.valid
  have distinct : (f.children p).Nodup := valid.children_nodup
  obtain ⟨_, silent, equal⟩ := firstTwins_spec found
  obtain ⟨apart, one, two, _⟩ := valid.twins_spec found
  have back : ∀ {a x}, Above g.parent? a x → Above f.parent? a x ∨ a = kept ∧ Above f.parent? twin x :=
    above_absorbed valid valid' one two apart relinked
  have pair' := pair.trans List.erase_sublist
  have behind : b ≠ kept := by
    rintro rfl
    have silent' : (f.step a).isOutput = false := (Step.isOutput_of_same same).trans silent
    rcases firstTwins_first found pair' silent' same with ⟨rfl, _⟩ | again
    · exact pair_irrefl distinct pair'
    · exact pair_irrefl distinct (pair_trans distinct again pair')
  have right := (back right).resolve_right fun wrong => behind wrong.1
  rcases back left with left | ⟨rfl, left⟩
  · exact ordered.twins p a b attached pair' same x y left right
  · have other : b ≠ twin := by
      rintro rfl
      exact distinct.not_mem_erase (pair.subset (by simp))
    rcases firstTwins_first found pair' silent same with ⟨_, wrong | later⟩ | wrong
    · exact absurd wrong other
    · have same' := Step.same_trans (Step.same_symm equal) same
      exact ordered.twins p twin b attached later same' x y left right
    · exact absurd wrong (pair_irrefl distinct)

-- The first twins become one, and the order of the visits stays as good as it was.
theorem Ordered.absorbed (fewer : down p = (f.children p).erase twin)
    (more : down kept = f.children kept ++ f.children twin)
    (others : ∀ x, x ≠ p → x ≠ kept → x ≠ twin → down x = f.children x) : g.Ordered order := by
  have valid := ordered.valid
  obtain ⟨pair, _, equal⟩ := firstTwins_spec found
  obtain ⟨apart, one, two, _⟩ := valid.twins_spec found
  have before : ∀ x, g.isAttached x = true → f.isAttached x = true ∧ x ≠ twin := by
    intro x higher
    simpa [valid.attached_without valid' two one apart relinked] using higher
  refine ⟨valid', ?_, ?_⟩
  · intro x q higher edge
    obtain ⟨higher, _⟩ := before x higher
    rw [relinked.parent] at edge
    rcases bypass_cases edge with ⟨_, ⟨under, rfl⟩ | ⟨_, named⟩⟩
    · exact ordered.twins p q twin attached pair equal q x .here (.parent under)
    · exact ordered.higher x q higher named
  · intro q a b higher siblings same x y left right
    obtain ⟨higher, remains⟩ := before q higher
    rw [relinked.steps] at same
    rw [relinked.children] at siblings
    by_cases atParent : q = p
    · subst atParent
      exact ordered.erased attached found valid' relinked (fewer ▸ siblings) same left right
    · -- away from their parent the twins are not met
      have child : ∀ c ∈ down q, c ≠ kept := by
        rintro c listed rfl
        rw [← relinked.children, valid'.mem_children_iff, relinked.parent,
          bypass_of_apart apart (by simp [one, valid.ne_parent two |>.symm]), one] at listed
        exact atParent (Option.some.inj listed).symm
      have back : ∀ {c z}, c ∈ down q → Above g.parent? c z → Above f.parent? c z :=
        fun listed above => (above_absorbed valid valid' one two apart relinked above).resolve_right
          fun wrong => child _ listed wrong.1
      have left := back (siblings.subset (by simp)) left
      have right := back (siblings.subset (by simp)) right
      by_cases atKept : q = kept
      · subst atKept
        exact ordered.handed attached found (more ▸ siblings) same left right
      · rw [others q atParent atKept remains] at siblings
        exact ordered.twins q a b higher siblings same x y left right

end Absorbed

theorem firstTwins_of_steps (same : g.step = f.step) (ids : List NodeId) :
    g.firstTwins? ids = f.firstTwins? ids := by
  induction ids with
  | nil => rfl
  | cons id later ih =>
    unfold firstTwins? twinOf?
    rw [same, ih]

-- What merging the children of one node does to the children of the nodes visited before.
structure Combed (order : List NodeId) (p : NodeId) (f g : Forest) : Prop where
  ordered : g.Ordered order
  step : g.step = f.step
  attached : ∀ x, g.isAttached x = true → f.isAttached x = true
  children : ∀ x, g.isAttached x = true → x ≠ p → ¬ [p, x].Sublist order →
    g.children x = f.children x

theorem Ordered.mergeChildren (ordered : f.Ordered order) (attached : f.isAttached p = true)
    (fuel merged : Nat) (enough : (f.children p).length ≤ fuel) :
    ∃ g n, Forest.mergeChildren p fuel f merged = .ok (g, n) ∧ Combed order p f g ∧
      g.firstTwins? (g.children p) = none := by
  induction fuel generalizing f merged with
  | zero =>
    have childless : f.children p = [] := List.eq_nil_of_length_eq_zero (Nat.le_zero.mp enough)
    refine ⟨f, merged, rfl, ⟨ordered, rfl, fun _ higher => higher, fun _ _ _ _ => rfl⟩, ?_⟩
    rw [childless]
    rfl
  | succ fuel ih =>
    cases found : f.firstTwins? (f.children p) with
    | none =>
      refine ⟨f, merged, ?_, ⟨ordered, rfl, fun _ higher => higher, fun _ _ _ _ => rfl⟩, found⟩
      unfold Forest.mergeChildren
      rw [found]
    | some twins =>
      obtain ⟨kept, twin⟩ := twins
      have valid := ordered.valid
      obtain ⟨apart, one, two, _⟩ := valid.twins_spec found
      obtain ⟨g, absorbed, valid', down, relinked, fewer, more, others⟩ := valid.absorb one two apart
      have ordered' := ordered.absorbed attached found valid' relinked fewer more others
      have before : ∀ x, g.isAttached x = (f.isAttached x && decide (x ≠ twin)) :=
        valid.attached_without valid' two one apart relinked
      have attached' : g.isAttached p = true := by
        rw [before, attached]
        simp [(valid.ne_parent two).symm]
      have listed := valid.mem_children_iff.mpr two
      have shorter : (g.children p).length ≤ fuel := by
        have some := List.length_pos_of_mem listed
        rw [relinked.children, fewer, List.length_erase_of_mem listed]
        omega
      obtain ⟨h, n, rest, combed, none⟩ := ih ordered' attached' (merged + 1) shorter
      refine ⟨h, n, ?_, ⟨combed.ordered, combed.step.trans relinked.steps, ?_, ?_⟩, none⟩
      · unfold Forest.mergeChildren
        rw [found]
        simp only [absorbed, bind_ok]
        exact rest
      · intro x higher
        simpa using (Bool.and_eq_true _ _ ▸ before x ▸ combed.attached x higher).1
      · intro x higher other elsewhere
        have higher' := combed.attached x higher
        rw [before, Bool.and_eq_true, decide_eq_true_eq] at higher'
        have below : x ≠ kept := by
          rintro rfl
          exact elsewhere (ordered.higher x p higher'.1 one)
        rw [combed.children x higher other elsewhere, relinked.children, others x other below higher'.2]

theorem Ordered.mergeEach (ordered : f.Ordered order) (distinct : order.Nodup)
    (parts : order = before ++ ids) (merged : Nat)
    (before_apart : ∀ x ∈ before, f.isAttached x = true → f.firstTwins? (f.children x) = none) :
    ∃ g n, ids.foldlM Forest.mergeNext (f, merged) = .ok (g, n) ∧ g.Ordered order ∧
      (∀ x, g.isAttached x = true → f.isAttached x = true) ∧
      ∀ x ∈ order, g.isAttached x = true → g.firstTwins? (g.children x) = none := by
  induction ids generalizing f merged before with
  | nil =>
    rw [List.append_nil] at parts
    exact ⟨f, merged, rfl, ordered, fun _ higher => higher, parts ▸ before_apart⟩
  | cons p ids ih =>
    have parts' : order = (before ++ [p]) ++ ids := by simp [parts]
    by_cases attached : f.isAttached p = true
    · obtain ⟨g, n, done, combed, none⟩ :=
        ordered.mergeChildren attached (f.children p).length merged (Nat.le_refl _)
      have apart : ∀ x ∈ before ++ [p], g.isAttached x = true →
          g.firstTwins? (g.children x) = Option.none := by
        intro x visited higher
        by_cases same : x = p
        · exact same ▸ none
        · have earlier : x ∈ before := by simpa [same] using visited
          have elsewhere : ¬ [p, x].Sublist order := by
            intro later
            have first : [x, p].Sublist order :=
              parts ▸ (List.singleton_sublist.mpr earlier).append (List.singleton_sublist.mpr (by simp))
            exact pair_irrefl distinct (pair_trans distinct first later)
          rw [combed.children x higher same elsewhere, firstTwins_of_steps combed.step]
          exact before_apart x earlier (combed.attached x higher)
      obtain ⟨h, m, rest, ordered', fewer, apart'⟩ := ih combed.ordered parts' n apart
      refine ⟨h, m, ?_, ordered', fun x higher => combed.attached x (fewer x higher), apart'⟩
      rw [List.foldlM_cons, Forest.mergeNext, if_pos attached, done]
      exact rest
    · have apart : ∀ x ∈ before ++ [p], f.isAttached x = true →
          f.firstTwins? (f.children x) = Option.none := by
        intro x visited higher
        have other : x ≠ p := fun same => attached (same ▸ higher)
        exact before_apart x (by simpa [other] using visited) higher
      obtain ⟨h, m, rest, more⟩ := ih ordered parts' merged apart
      refine ⟨h, m, ?_, more⟩
      rw [List.foldlM_cons, Forest.mergeNext, if_neg attached]
      exact rest

namespace WellFormed

-- Twins that come to be only when two nodes above them become one are met later in the same pass, since
-- nodes are visited before what is below them and what one sibling hands over to its twin stands behind
-- what the twin has.
theorem mergeSiblings_apart (valid : f.WellFormed) :
    ∃ g n, f.mergeSiblings = .ok (g, n) ∧ g.WellFormed ∧
      ∀ x, g.isAttached x = true → g.firstTwins? (g.children x) = none := by
  obtain ⟨g, n, done, ordered, fewer, apart⟩ :=
    valid.ordered_walkAll.mergeEach valid.walkAll_nodup (List.nil_append _).symm 0 (by simp)
  exact ⟨g, n, done, ordered.valid, fun x higher =>
    apart x (valid.mem_walkAll_iff.mpr (fewer x higher)) higher⟩

theorem mergeSiblings_of_apart
    (apart : ∀ x, f.isAttached x = true → f.firstTwins? (f.children x) = none) :
    f.mergeSiblings = .ok (f, 0) := by
  have each : ∀ ids : List NodeId, ids.foldlM Forest.mergeNext (f, 0) = .ok (f, 0) := by
    intro ids
    induction ids with
    | nil => rfl
    | cons id ids ih =>
      have stays : Forest.mergeNext (f, 0) id = .ok (f, 0) := by
        unfold Forest.mergeNext
        by_cases attached : f.isAttached id = true
        · rw [if_pos attached]
          cases length : (f.children id).length with
          | zero => rfl
          | succ fuel =>
            unfold Forest.mergeChildren
            rw [apart id attached]
        · rw [if_neg attached]
      rw [List.foldlM_cons, stays]
      exact ih
  exact each f.walkAll

theorem mergeSiblings_twice (valid : f.WellFormed) {n : Nat} (done : f.mergeSiblings = .ok (g, n)) :
    g.mergeSiblings = .ok (g, 0) := by
  obtain ⟨h, m, done', _, apart⟩ := valid.mergeSiblings_apart
  rw [done] at done'
  cases done'
  exact mergeSiblings_of_apart apart

end WellFormed
end Viewflow.Flow.Forest
