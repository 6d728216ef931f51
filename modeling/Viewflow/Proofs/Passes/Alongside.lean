import Mathlib.Data.List.Find
import Viewflow.Proofs.Forest.Beside
import Viewflow.Proofs.Passes.Rounds

namespace Viewflow.Flow

theorem bypass_congr {up up' : NodeId → Option NodeId} {id p x : NodeId} (same : up' x = up x) :
    bypass up' id p x = bypass up id p x := by
  unfold bypass
  rw [same]

theorem exchange_congr {up up' : NodeId → Option NodeId} {id p x : NodeId} (same : up' x = up x)
    (upper : up' p = up p) : exchange up' id p x = exchange up id p x := by
  unfold exchange
  rw [same, upper]

namespace Forest

variable {f g : Forest} {n : Nat} {id p x kept twin : NodeId} {ids : List NodeId}
  {demand demand' : Demand} {mains mains' : List NodeId}

theorem firstTwins_congr (same : ∀ x ∈ ids, g.step x = f.step x) :
    g.firstTwins? ids = f.firstTwins? ids := by
  induction ids with
  | nil => rfl
  | cons id later ih =>
    obtain ⟨here, rest⟩ := List.forall_mem_cons.mp same
    have twins : g.twinOf? id later = f.twinOf? id later := by
      unfold twinOf?
      rw [here]
      split
      · rfl
      · exact List.find?_congr fun other listed => by rw [rest other listed]
    unfold firstTwins?
    rw [twins, ih rest]

theorem WellFormed.bare {up : NodeId → Option NodeId} {down : NodeId → List NodeId} {roots : List NodeId}
    (valid : g.WellFormed) (relinked : Relinked f g (bypass up twin kept) down roots)
    (apart : kept ≠ twin) : g.children twin = [] := by
  apply List.eq_nil_iff_forall_not_mem.mpr
  intro c listed
  have named := valid.pointsBack twin c listed
  rw [relinked.parent] at named
  rcases bypass_cases named with ⟨_, ⟨_, same⟩ | ⟨under, named⟩⟩
  · exact apart same.symm
  · exact under named

namespace Beside

section Each

variable {σ : Type} {next : Forest × σ → NodeId → Except Fault (Forest × σ)}
  {later : List NodeId}

theorem foldlM_aside
    (aside : ∀ f g k id, Beside n f g → n ≤ id.index →
      ∃ g' k', next (g, k) id = .ok (g', k') ∧ Beside n f g')
    (beside : Beside n f g) (high : ∀ id ∈ later, n ≤ id.index) (k : σ) :
    ∃ g' k', later.foldlM next (g, k) = .ok (g', k') ∧ Beside n f g' := by
  induction later generalizing g k with
  | nil => exact ⟨g, k, rfl, beside⟩
  | cons id later ih =>
    obtain ⟨highHere, highRest⟩ := List.forall_mem_cons.mp high
    obtain ⟨g₁, k₁, first, beside₁⟩ := aside f g k id beside highHere
    obtain ⟨g', k', rest, beside'⟩ := ih beside₁ highRest k₁
    refine ⟨g', k', ?_, beside'⟩
    rw [List.foldlM_cons, first]
    exact rest

-- One node after the other, the first ones in both forests and the later ones in the second alone.
theorem foldlM (ready : Forest → NodeId → Prop)
    (both : ∀ f g m k id, Beside n f g → ready f id →
      ∃ f' g' m' k', next (f, m) id = .ok (f', m') ∧ next (g, k) id = .ok (g', k') ∧
        Beside n f' g' ∧ ∀ x, ready f x → ready f' x)
    (aside : ∀ f g k id, Beside n f g → n ≤ id.index →
      ∃ g' k', next (g, k) id = .ok (g', k') ∧ Beside n f g')
    (beside : Beside n f g) (low : ∀ id ∈ ids, ready f id) (high : ∀ id ∈ later, n ≤ id.index)
    (m k : σ) :
    ∃ f' g' m' k', ids.foldlM next (f, m) = .ok (f', m') ∧
      (ids ++ later).foldlM next (g, k) = .ok (g', k') ∧ Beside n f' g' := by
  induction ids generalizing f g m k with
  | nil =>
    obtain ⟨g', k', done, beside'⟩ := foldlM_aside aside beside high k
    exact ⟨f, g', m, k', rfl, done, beside'⟩
  | cons id ids ih =>
    obtain ⟨lowHere, lowRest⟩ := List.forall_mem_cons.mp low
    obtain ⟨f₁, g₁, m₁, k₁, first, first', beside₁, stays⟩ := both f g m k id beside lowHere
    obtain ⟨f', g', m', k', rest, rest', beside'⟩ :=
      ih beside₁ (fun x member => stays x (lowRest x member)) m₁ k₁
    refine ⟨f', g', m', k', ?_, ?_, beside'⟩
    · rw [List.foldlM_cons, first]
      exact rest
    · rw [List.cons_append, List.foldlM_cons, first']
      exact rest'

end Each

section

variable (beside : Beside n f g)
include beside

theorem remove (named : f.parent? id = some p) :
    ∃ f' g', f.remove id = .ok f' ∧ g.remove id = .ok g' ∧ Beside n f' g' := by
  obtain ⟨low, lowParent⟩ := beside.low_linked named
  obtain ⟨f', removed, valid, relinked⟩ := beside.valid.remove named
  obtain ⟨g', removed', valid', relinked'⟩ :=
    beside.valid'.remove ((beside.parent id low).trans named)
  refine ⟨f', g', removed, removed', beside.both relinked relinked' valid valid'
    (fun x low => bypass_congr (beside.parent x low)) ?_ beside.roots⟩
  intro x low'
  simp only [beside.children x low', beside.children p lowParent, beside.children id low]

theorem remove_aside (high : n ≤ id.index) (named : g.parent? id = some p) :
    ∃ g', g.remove id = .ok g' ∧ Beside n f g' := by
  have highParent := beside.high_parent high named
  obtain ⟨g', removed, valid', relinked⟩ := beside.valid'.remove named
  refine ⟨g', removed, beside.aside relinked valid' ?_ ?_ beside.roots⟩
  · intro x low
    exact bypass_of_apart (ne_low high low) fun under =>
      Nat.not_lt.mpr high (beside.low_parent low under)
  · intro x low
    rw [if_neg (ne_low highParent low), if_neg (ne_low high low)]

theorem swapWithParent (named : f.parent? id = some p) (placed : (f.parent? p).isSome ∨ p ∈ f.roots) :
    ∃ f' g', f.swapWithParent id = .ok f' ∧ g.swapWithParent id = .ok g' ∧ Beside n f' g' := by
  obtain ⟨low, lowParent⟩ := beside.low_linked named
  obtain ⟨more, listed, high⟩ := beside.roots
  have placed' : (g.parent? p).isSome ∨ p ∈ g.roots := by
    rw [beside.parent p lowParent, listed]
    exact placed.imp_right (List.mem_append_left more)
  have elsewhere : p ∉ more := fun member => Nat.not_lt.mpr (high p member) lowParent
  obtain ⟨f', swapped, valid, relinked⟩ := beside.valid.swapWithParent named placed
  obtain ⟨g', swapped', valid', relinked'⟩ :=
    beside.valid'.swapWithParent ((beside.parent id low).trans named) placed'
  refine ⟨f', g', swapped, swapped', beside.both relinked relinked' valid valid'
    (fun x low => exchange_congr (beside.parent x low) (beside.parent p lowParent)) ?_ ?_⟩
  · intro x low'
    simp only [beside.children x low', beside.children p lowParent, beside.children id low]
  · refine ⟨more, ?_, high⟩
    rw [listed, List.replace_append]
    split
    · rfl
    · next absent => rw [List.replace_of_not_mem elsewhere, List.replace_of_not_mem absent]

theorem swapWithParent_aside (high : n ≤ id.index) (named : g.parent? id = some p)
    (placed : (g.parent? p).isSome ∨ p ∈ g.roots) :
    ∃ g', g.swapWithParent id = .ok g' ∧ Beside n f g' := by
  have highParent := beside.high_parent high named
  have below : ∀ x q, x.index < n → g.parent? x = some q → q.index < n :=
    fun x q low => beside.low_parent low
  obtain ⟨more, listed, others⟩ := beside.roots
  have elsewhere : p ∉ f.roots := fun root =>
    Nat.not_lt.mpr highParent (beside.low_root root)
  obtain ⟨g', swapped, valid', relinked⟩ := beside.valid'.swapWithParent named placed
  refine ⟨g', swapped, beside.aside relinked valid' ?_ ?_ ?_⟩
  · intro x low
    exact exchange_of_apart (ne_low high low) (ne_low highParent low) fun under =>
      Nat.not_lt.mpr high (below x id low under)
  · intro x low
    have absent : p ∉ g.children x := fun child => ne_low highParent
      (beside.low_child low (beside.valid'.pointsBack x p child)) rfl
    rw [if_neg (ne_low high low), if_neg (ne_low highParent low), List.replace_of_not_mem absent]
  · refine ⟨more.replace p id, by rw [listed, List.replace_append, if_neg elsewhere], ?_⟩
    intro r member
    have distinct : more.Nodup :=
      (listed ▸ beside.valid'.rootsDistinct).sublist (List.sublist_append_right ..)
    rcases (mem_replace distinct).mp member with ⟨rfl, _⟩ | ⟨_, old⟩
    · exact high
    · exact others r old

theorem mergeParse (low : id.index < n) (lowParent : p.index < n) :
    Beside n (f.mergeParse id p) (g.mergeParse id p) := by
  unfold Forest.mergeParse
  rw [beside.step id low, beside.step p lowParent]
  split
  · exact beside.setStep lowParent _
  · exact beside

theorem mergeParse_aside (high : n ≤ p.index) : Beside n f (g.mergeParse id p) := by
  unfold Forest.mergeParse
  split
  · exact beside.setStep_aside high _
  · exact beside

theorem blocks (low : id.index < n) (lowParent : p.index < n) : g.blocks p id = f.blocks p id := by
  unfold Forest.blocks
  rw [beside.step id low, beside.step p lowParent, beside.children p lowParent]

theorem hoist (low : id.index < n) (attached : f.isAttached id = true) (fuel : Nat)
    (m k : HoistCount) :
    ∃ f' g' m' k', Forest.hoist id fuel f m = .ok (f', m') ∧ Forest.hoist id fuel g k = .ok (g', k') ∧
      Beside n f' g' := by
  induction fuel generalizing f g m k with
  | zero => exact ⟨f, g, m, k, rfl, rfl, beside⟩
  | succ fuel ih =>
    unfold Forest.hoist
    rw [beside.parent id low]
    cases named : f.parent? id with
    | none => exact ⟨f, g, m, k, rfl, rfl, beside⟩
    | some p =>
      have lowParent := (beside.low_linked named).2
      simp only [beside.step p lowParent, beside.blocks low lowParent]
      by_cases meets : (f.step p).isParse = true
      · obtain ⟨f', g', removed, removed', beside'⟩ := (beside.mergeParse low lowParent).remove
          ((WellFormed.parent_mergeParse f id p id).trans named)
        simp only [meets, if_true, removed, removed', bind_ok]
        exact ⟨f', g', _, _, rfl, rfl, beside'⟩
      · by_cases blocked : f.blocks p id = true
        · simp only [meets, blocked, if_true, Bool.false_eq_true, if_false]
          exact ⟨f, g, m, k, rfl, rfl, beside⟩
        · have placed := beside.valid.placed_of_attached named attached
          obtain ⟨f', g', swapped, swapped', beside'⟩ := beside.swapWithParent named placed
          obtain ⟨valid, relinked⟩ := of_ok (beside.valid.swapWithParent named placed) swapped
          have attached' := (beside.valid.attached_same valid named relinked id).trans attached
          simp only [meets, blocked, Bool.false_eq_true, if_false, swapped, swapped', bind_ok]
          exact ih beside' attached' _ _

theorem hoist_aside (high : n ≤ id.index) (attached : g.isAttached id = true) (fuel : Nat)
    (k : HoistCount) : ∃ g' k', Forest.hoist id fuel g k = .ok (g', k') ∧ Beside n f g' := by
  induction fuel generalizing g k with
  | zero => exact ⟨g, k, rfl, beside⟩
  | succ fuel ih =>
    unfold Forest.hoist
    cases named : g.parent? id with
    | none => exact ⟨g, k, rfl, beside⟩
    | some p =>
      have highParent := beside.high_parent high named
      by_cases meets : (g.step p).isParse = true
      · obtain ⟨g', removed, beside'⟩ := (beside.mergeParse_aside highParent).remove_aside high
          ((WellFormed.parent_mergeParse g id p id).trans named)
        simp only [meets, if_true, removed, bind_ok]
        exact ⟨g', _, rfl, beside'⟩
      · by_cases blocked : g.blocks p id = true
        · simp only [meets, blocked, if_true, Bool.false_eq_true, if_false]
          exact ⟨g, k, rfl, beside⟩
        · have placed := beside.valid'.placed_of_attached named attached
          obtain ⟨g', swapped, beside'⟩ := beside.swapWithParent_aside high named placed
          obtain ⟨valid, relinked⟩ := of_ok (beside.valid'.swapWithParent named placed) swapped
          have attached' := (beside.valid'.attached_same valid named relinked id).trans attached
          simp only [meets, blocked, Bool.false_eq_true, if_false, swapped, bind_ok]
          exact ih beside' attached' _

theorem hoistNext (low : id.index < n) (parse : (f.step id).isParse = true) (m k : HoistCount) :
    ∃ f' g' m' k', Forest.hoistNext (f, m) id = .ok (f', m') ∧
      Forest.hoistNext (g, k) id = .ok (g', k') ∧ Beside n f' g' := by
  unfold Forest.hoistNext
  rw [beside.attached low]
  by_cases attached : f.isAttached id = true
  · obtain ⟨more, larger⟩ := Nat.exists_eq_add_of_le (beside.size.symm ▸ beside.larger : f.size ≤ g.size)
    have short : (g.lineage id).length ≤ f.size := by
      rw [beside.lineage low]
      exact beside.valid.lineage_length (beside.size.symm ▸ low)
    have parse' : (g.step id).isParse = true := (beside.step id low).symm ▸ parse
    rw [if_pos attached, if_pos attached, larger, beside.valid'.hoist_enough
      ((beside.attached low).trans attached) parse' f.size more k short]
    exact beside.hoist low attached f.size m k
  · rw [if_neg attached, if_neg attached]
    exact ⟨f, g, m, k, rfl, rfl, beside⟩

theorem hoistNext_aside (high : n ≤ id.index) (k : HoistCount) :
    ∃ g' k', Forest.hoistNext (g, k) id = .ok (g', k') ∧ Beside n f g' := by
  unfold Forest.hoistNext
  by_cases attached : g.isAttached id = true
  · rw [if_pos attached]
    exact beside.hoist_aside high attached g.size k
  · rw [if_neg attached]
    exact ⟨g, k, rfl, beside⟩

theorem low_of_visited (visited : x ∈ f.walkAll) : x.index < n :=
  beside.size ▸ beside.valid.attached_known (beside.valid.mem_walkAll_iff.mp visited)

theorem moveParseUp :
    ∃ f' g' m k, f.moveParseUp = .ok (f', m) ∧ g.moveParseUp = .ok (g', k) ∧ Beside n f' g' := by
  obtain ⟨later, walk, high⟩ := beside.walkAll
  have parses : g.parses = f.parses ++ later.filter fun x => (g.step x).isParse := by
    unfold Forest.parses
    rw [walk, List.filter_append]
    congr 1
    exact List.filter_congr fun x visited => by rw [beside.step x (beside.low_of_visited visited)]
  unfold Forest.moveParseUp
  rw [parses]
  refine foldlM (fun f x => x.index < n ∧ (f.step x).isParse = true) ?_
    (fun f g k id beside high => beside.hoistNext_aside high k) beside
    (fun x member => ⟨beside.low_of_visited (List.mem_filter.mp member).1, (List.mem_filter.mp member).2⟩)
    (fun x member => high x (List.mem_filter.mp member).1) ⟨0, 0⟩ ⟨0, 0⟩
  intro f g m k id beside ready
  obtain ⟨f', g', m', k', next, next', beside'⟩ := beside.hoistNext ready.1 ready.2 m k
  obtain ⟨_, _, again, _, kept, _⟩ := beside.valid.hoistNext .empty ready.2 m
  rw [next] at again
  cases again
  exact ⟨f', g', m', k', next, next', beside', fun x ready => ⟨ready.1, (kept x).trans ready.2⟩⟩

theorem absorb (one : f.parent? kept = some p) (two : f.parent? twin = some p) (apart : kept ≠ twin) :
    ∃ f' g', f.absorb kept twin = .ok f' ∧ g.absorb kept twin = .ok g' ∧ Beside n f' g' := by
  obtain ⟨lowKept, lowParent⟩ := beside.low_linked one
  have lowTwin := (beside.low_linked two).1
  obtain ⟨f', absorbed, valid, down, relinked, fewer, more, others⟩ := beside.valid.absorb one two apart
  obtain ⟨g', absorbed', valid', down', relinked', fewer', more', others'⟩ := beside.valid'.absorb
    ((beside.parent kept lowKept).trans one) ((beside.parent twin lowTwin).trans two) apart
  refine ⟨f', g', absorbed, absorbed', beside.both relinked relinked' valid valid'
    (fun x low => bypass_congr (beside.parent x low)) ?_ beside.roots⟩
  intro x low
  by_cases atParent : x = p
  · rw [atParent, fewer, fewer', beside.children p lowParent]
  · by_cases atKept : x = kept
    · rw [atKept, more, more', beside.children kept lowKept, beside.children twin lowTwin]
    · by_cases atTwin : x = twin
      · rw [atTwin, ← relinked.children, ← relinked'.children, valid.bare relinked apart,
          valid'.bare relinked' apart]
      · rw [others x atParent atKept atTwin, others' x atParent atKept atTwin, beside.children x low]

theorem absorb_aside (high : n ≤ p.index) (one : g.parent? kept = some p) (two : g.parent? twin = some p)
    (apart : kept ≠ twin) : ∃ g', g.absorb kept twin = .ok g' ∧ Beside n f g' := by
  have above : ∀ {x}, g.parent? x = some p → n ≤ x.index := fun named =>
    Nat.le_of_not_lt fun low => Nat.not_lt.mpr high (beside.low_parent low named)
  obtain ⟨g', absorbed, valid', down, relinked, _, _, others⟩ := beside.valid'.absorb one two apart
  refine ⟨g', absorbed, beside.aside relinked valid' ?_ ?_ beside.roots⟩
  · intro x low
    exact bypass_of_apart (ne_low (above two) low) fun under =>
      Nat.not_lt.mpr (above two) (beside.low_parent low under)
  · intro x low
    exact others x (ne_low high low) (ne_low (above one) low) (ne_low (above two) low)

theorem firstTwins (low : p.index < n) :
    g.firstTwins? (g.children p) = f.firstTwins? (f.children p) := by
  rw [beside.children p low]
  exact firstTwins_congr fun x listed =>
    beside.step x (beside.low_linked (beside.valid.pointsBack p x listed)).1

theorem mergeChildren (low : p.index < n) (fuel m k : Nat) :
    ∃ f' g' m' k', Forest.mergeChildren p fuel f m = .ok (f', m') ∧
      Forest.mergeChildren p fuel g k = .ok (g', k') ∧ Beside n f' g' := by
  induction fuel generalizing f g m k with
  | zero => exact ⟨f, g, m, k, rfl, rfl, beside⟩
  | succ fuel ih =>
    unfold Forest.mergeChildren
    rw [beside.firstTwins low]
    cases found : f.firstTwins? (f.children p) with
    | none => exact ⟨f, g, m, k, rfl, rfl, beside⟩
    | some twins =>
      obtain ⟨kept, twin⟩ := twins
      obtain ⟨apart, one, two, _⟩ := beside.valid.twins_spec found
      obtain ⟨f', g', absorbed, absorbed', beside'⟩ := beside.absorb one two apart
      simp only [absorbed, absorbed', bind_ok]
      exact ih beside' _ _

theorem mergeChildren_aside (high : n ≤ p.index) (fuel k : Nat) :
    ∃ g' k', Forest.mergeChildren p fuel g k = .ok (g', k') ∧ Beside n f g' := by
  induction fuel generalizing g k with
  | zero => exact ⟨g, k, rfl, beside⟩
  | succ fuel ih =>
    unfold Forest.mergeChildren
    cases found : g.firstTwins? (g.children p) with
    | none => exact ⟨g, k, rfl, beside⟩
    | some twins =>
      obtain ⟨kept, twin⟩ := twins
      obtain ⟨apart, one, two, _⟩ := beside.valid'.twins_spec found
      obtain ⟨g', absorbed, beside'⟩ := beside.absorb_aside high one two apart
      simp only [absorbed, bind_ok]
      exact ih beside' _

theorem mergeSiblings :
    ∃ f' g' m k, f.mergeSiblings = .ok (f', m) ∧ g.mergeSiblings = .ok (g', k) ∧ Beside n f' g' := by
  obtain ⟨later, walk, high⟩ := beside.walkAll
  unfold Forest.mergeSiblings
  rw [walk]
  refine foldlM (fun _ x => x.index < n) ?_ ?_ beside (fun _ => beside.low_of_visited) high 0 0
  · intro f g m k id beside low
    obtain ⟨f', g', m', k', next, next', beside'⟩ : ∃ f' g' m' k',
        Forest.mergeNext (f, m) id = .ok (f', m') ∧ Forest.mergeNext (g, k) id = .ok (g', k') ∧
        Beside n f' g' := by
      unfold Forest.mergeNext
      rw [beside.attached low, beside.children id low]
      split
      · exact beside.mergeChildren low _ m k
      · exact ⟨f, g, m, k, rfl, rfl, beside⟩
    exact ⟨f', g', m', k', next, next', beside', fun _ low => low⟩
  · intro f g k id beside high
    unfold Forest.mergeNext
    split
    · exact beside.mergeChildren_aside high _ k
    · exact ⟨g, k, rfl, beside⟩

-- One round does all there is to do on the strands of either forest.
theorem optimize (strands : f.Strands demand.Spares) (asked : f.Asked demand mains)
    (strands' : g.Strands demand'.Spares) (asked' : g.Asked demand' mains') (bound : Nat) :
    ∃ f' g' t t', f.optimize demand bound = .ok (f', t) ∧ g.optimize demand' bound = .ok (g', t') ∧
      Beside n f' g' := by
  obtain ⟨h, f', _, t, climbed, joined, done, _⟩ := strands.optimize_parts asked bound
  obtain ⟨h', g', _, t', climbed', joined', done', _⟩ := strands'.optimize_parts asked' bound
  obtain ⟨_, _, _, _, climbs, climbs', beside₁⟩ := beside.moveParseUp
  rw [climbed] at climbs
  rw [climbed'] at climbs'
  cases climbs
  cases climbs'
  obtain ⟨_, _, _, _, joins, joins', beside₂⟩ := beside₁.mergeSiblings
  rw [joined] at joins
  rw [joined'] at joins'
  cases joins
  cases joins'
  exact ⟨f', g', t, t', done, done', beside₂⟩

end
end Beside
end Forest
end Viewflow.Flow
