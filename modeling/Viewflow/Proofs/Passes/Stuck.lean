import Viewflow.Proofs.Lowering.Pipelines
import Viewflow.Proofs.Passes.Coerced
import Viewflow.Proofs.Passes.Fixpoint

namespace Viewflow.Flow

variable {f g h : Forest} {id p x : NodeId} {n n' m : HoistCount} {ids : List NodeId}

theorem Step.coercion_isSome_iff {s : Step} {field : String} (parse : s.isParse = true) :
    (s.coercion field).isSome = true ↔ field ∈ s.dependent.toList := by
  cases s with
  | parse fields =>
    rw [Step.dependent, Distinct.mem_ofList, Keyed.keys, List.mem_map, Step.coercion,
      Option.isSome_iff_exists]
    simp only [Keyed.find?_eq_some_iff, Prod.exists, exists_and_right, exists_eq_right]
  | _ => cases parse

namespace Forest

theorem blocks_iff : f.blocks p id = true ↔ (f.step p).isSource = true ∨
    2 ≤ (f.children p).length ∨
    ∃ field ∈ (f.step id).dependent.toList, field ∈ (f.step p).produced.toList := by
  simp [blocks, Distinct.isDisjoint, or_assoc, Nat.lt_iff_add_one_le]

-- A coercion that cannot climb stays so whatever others do: what is above it is no coercion, so that it
-- keeps its children in number and is passed by nobody else, and what goes into the coercion only adds to
-- the fields in its way.
def Stuck (f : Forest) (id : NodeId) : Prop :=
  ∀ p, f.parent? id = some p → (f.step p).isParse = false ∧ f.blocks p id = true

structure Hoisted (f g : Forest) : Prop where
  valid : g.WellFormed
  parses : SameParses f g
  attached : ∀ x, g.isAttached x = true → f.isAttached x = true
  loose : ∀ x, f.isAttached x = false → g.step x = f.step x
  coercion : ∀ x field c, (f.step x).coercion field = some c → (g.step x).coercion field = some c
  stuck : ∀ x, (f.step x).isParse = true → f.Stuck x → g.Stuck x

namespace Hoisted

theorem refl (valid : f.WellFormed) : Hoisted f f :=
  ⟨valid, fun _ => rfl, fun _ attached => attached, fun _ _ => rfl, fun _ _ _ same => same,
    fun _ _ stuck => stuck⟩

theorem gone (hoisted : Hoisted f g) (loose : f.isAttached x = false) : g.isAttached x = false := by
  rw [Bool.eq_false_iff] at loose ⊢
  exact fun attached => loose (hoisted.attached x attached)

theorem trans (one : Hoisted f g) (two : Hoisted g h) : Hoisted f h where
  valid := two.valid
  parses := one.parses.trans two.parses
  attached x attached := one.attached x (two.attached x attached)
  loose x loose := (two.loose x (one.gone loose)).trans (one.loose x loose)
  coercion x field c same := two.coercion x field c (one.coercion x field c same)
  stuck x parse stuck := two.stuck x ((one.parses x).trans parse) (one.stuck x parse stuck)

end Hoisted

namespace WellFormed

section Climb

variable (valid : f.WellFormed) (named : f.parent? id = some p) (attached : f.isAttached id = true)
  (parse : (f.step id).isParse = true) (low : (f.step p).isParse = false)
  (free : f.blocks p id = false) (swapped : f.swapWithParent id = .ok g)
include valid named attached parse low free swapped

theorem stuck_exchanged (coerces : (f.step x).isParse = true) (stuck : f.Stuck x) : g.Stuck x := by
  obtain ⟨_, relinked⟩ :=
    of_ok (valid.swapWithParent named (valid.placed_of_attached named attached)) swapped
  intro q edge
  rw [relinked.parent] at edge
  rcases exchange_cases edge with ⟨rfl, _⟩ | ⟨rfl, _⟩ | ⟨other, _, ⟨under, _⟩ | ⟨_, under⟩⟩
  · rw [(stuck p named).2] at free
    cases free
  · rw [low] at coerces
    cases coerces
  · rw [(stuck id under).1] at parse
    cases parse
  · obtain ⟨plain, blocked⟩ := stuck q under
    have atNode : q ≠ id := by
      rintro rfl
      rw [plain] at parse
      cases parse
    have atParent : q ≠ p := by
      rintro rfl
      exact other (valid.only_child named free under)
    rw [relinked.step]
    refine ⟨plain, ?_⟩
    rw [blocks_iff] at blocked ⊢
    rw [relinked.step, relinked.step, relinked.children, if_neg atNode, if_neg atParent,
      List.length_replace]
    exact blocked

theorem hoisted_exchanged : Hoisted f g := by
  obtain ⟨valid', relinked⟩ :=
    of_ok (valid.swapWithParent named (valid.placed_of_attached named attached)) swapped
  have still := valid.attached_same valid' named relinked
  exact {
    valid := valid'
    parses := fun x => by rw [relinked.step]
    attached := fun x higher => (still x).symm.trans higher
    loose := fun x _ => relinked.step x
    coercion := fun x field c same => (relinked.step x).symm ▸ same
    stuck := fun x => valid.stuck_exchanged named attached parse low free swapped }

end Climb

section Meet

variable (valid : f.WellFormed) (named : f.parent? id = some p) (attached : f.isAttached id = true)
  (parse : (f.step id).isParse = true) (upper : (f.step p).isParse = true)
  (removed : (f.mergeParse id p).remove id = .ok g)
include valid named parse upper removed

omit parse upper in
theorem met_relinked : g.WellFormed ∧
    Relinked (f.mergeParse id p) g (bypass (f.mergeParse id p).parent? id p)
      (fun x => if x = p then ((f.mergeParse id p).children p).erase id ++
          (f.mergeParse id p).children id
        else if x = id then [] else (f.mergeParse id p).children x) (f.mergeParse id p).roots := by
  obtain ⟨g', done, met⟩ :=
    (valid.mergeParse id p).remove ((parent_mergeParse f id p id).trans named)
  rw [removed] at done
  cases done
  exact met

theorem coercion_met_upper (field : String) :
    (g.step p).coercion field = ((f.step p).coercion field).or ((f.step id).coercion field) := by
  obtain ⟨_, relinked⟩ := valid.met_relinked named removed
  cases above : f.step p with
  | parse fields =>
    cases below : f.step id with
    | parse more => rw [valid.step_met named relinked above below, coercion_merged]
    | _ => rw [below] at parse; cases parse
  | _ => rw [above] at upper; cases upper

theorem coercion_met {field : String} {c : Coercion} (same : (f.step x).coercion field = some c) :
    (g.step x).coercion field = some c := by
  obtain ⟨_, relinked⟩ := valid.met_relinked named removed
  by_cases atParent : x = p
  · rw [atParent] at same ⊢
    rw [valid.coercion_met_upper named parse upper removed, same]
    rfl
  · rw [step_met_of_ne relinked atParent]
    exact same

theorem stuck_met (coerces : (f.step x).isParse = true) (stuck : f.Stuck x) : g.Stuck x := by
  obtain ⟨_, relinked⟩ := valid.met_relinked named removed
  intro q edge
  rw [parent_met relinked] at edge
  rcases bypass_cases edge with ⟨_, ⟨under, _⟩ | ⟨_, under⟩⟩
  · rw [(stuck id under).1] at parse
    cases parse
  · obtain ⟨plain, blocked⟩ := stuck q under
    have atParent : q ≠ p := by
      rintro rfl
      rw [plain] at upper
      cases upper
    have atNode : q ≠ id := by
      rintro rfl
      rw [plain] at parse
      cases parse
    have coerces' : (g.step x).isParse = true := by
      rw [relinked.step, mergeParse_sameParses f id p x, coerces]
    have more : ∀ field ∈ (f.step x).dependent.toList, field ∈ (g.step x).dependent.toList := by
      intro field member
      rw [← Step.coercion_isSome_iff coerces] at member
      rw [← Step.coercion_isSome_iff coerces']
      obtain ⟨c, same⟩ := Option.isSome_iff_exists.mp member
      rw [valid.coercion_met named parse upper removed same]
      rfl
    have children : g.children q = f.children q := by
      rw [relinked.children, if_neg atParent, if_neg atNode, children_mergeParse]
    rw [step_met_of_ne relinked atParent]
    refine ⟨plain, ?_⟩
    rw [blocks_iff] at blocked ⊢
    rw [step_met_of_ne relinked atParent, children]
    refine blocked.imp_right (.imp_right ?_)
    rintro ⟨field, coerced, produced⟩
    exact ⟨field, more field coerced, produced⟩

omit parse upper in
theorem attached_met (x : NodeId) : g.isAttached x = (f.isAttached x && decide (x ≠ id)) := by
  obtain ⟨valid', relinked⟩ := valid.met_relinked named removed
  have merged := valid.mergeParse id p
  have named' : (f.mergeParse id p).parent? id = some p := (parent_mergeParse f id p id).trans named
  rw [((valid.sheds_mergeParse id p).trans (merged.sheds_removed valid' named' relinked)).attached]
  simp

include attached

theorem hoisted_met : Hoisted f g := by
  obtain ⟨valid', relinked⟩ := valid.met_relinked named removed
  have still := valid.attached_met named removed
  have higher := (valid.attached_iff_parent named).mp attached
  refine ⟨valid', ?_, ?_, ?_, fun x field c => valid.coercion_met named parse upper removed,
    fun x => valid.stuck_met named parse upper removed⟩
  · intro x
    rw [relinked.step, mergeParse_sameParses f id p x]
  · intro x attached'
    rw [still, Bool.and_eq_true] at attached'
    exact attached'.1
  · intro x loose
    apply step_met_of_ne relinked
    rintro rfl
    rw [loose] at higher
    cases higher

end Meet
end WellFormed

theorem Hoists.hoisted (hoists : Hoists f n g) (valid : f.WellFormed) : Hoisted f g := by
  induction hoists with
  | none => exact .refl valid
  | climb named attached parse low free swapped _ ih =>
    have first := valid.hoisted_exchanged named attached parse low free swapped
    exact first.trans (ih first.valid)
  | meet named attached parse upper removed _ ih =>
    have first := valid.hoisted_met named attached parse upper removed
    exact first.trans (ih first.valid)

-- At some moment of the run a coercion went into the one above it.
def WentInto (f g : Forest) (n : HoistCount) (id into : NodeId) : Prop :=
  ∃ before after s m s' m', Hoists f ⟨s, m⟩ before ∧ before.parent? id = some into ∧
    (before.step id).isParse = true ∧ (before.step into).isParse = true ∧
    (before.mergeParse id into).remove id = .ok after ∧ Hoists after ⟨s', m'⟩ g ∧
    n = ⟨s + s', m + 1 + m'⟩

theorem Hoists.went_into (hoists : Hoists f n g) (valid : f.WellFormed)
    (attached : f.isAttached x = true) (gone : g.isAttached x = false) :
    ∃ into, WentInto f g n x into := by
  induction hoists with
  | none =>
    rw [attached] at gone
    cases gone
  | @climb f g h id p s m named higher parse low free swapped _ ih =>
    have first := valid.hoisted_exchanged named higher parse low free swapped
    obtain ⟨valid', relinked⟩ :=
      of_ok (valid.swapWithParent named (valid.placed_of_attached named higher)) swapped
    have still := (valid.attached_same valid' named relinked x).trans attached
    obtain ⟨into, before, after, s₁, m₁, s₂, m₂, hoists, under, lower, upper, removed, rest, counted⟩ :=
      ih first.valid still gone
    obtain ⟨rfl, rfl⟩ := HoistCount.mk.inj counted
    exact ⟨into, before, after, s₁ + 1, m₁, s₂, m₂,
      .climb named higher parse low free swapped hoists, under, lower, upper, removed, rest,
      by rw [Nat.add_right_comm]⟩
  | @meet f g h id p s m named higher parse upper removed rest ih =>
    have first := valid.hoisted_met named higher parse upper removed
    by_cases same : x = id
    · subst same
      exact ⟨p, f, g, 0, 0, s, m, .none, named, parse, upper, removed, rest, by
        rw [Nat.zero_add, Nat.zero_add, Nat.add_comm]⟩
    · have still : g.isAttached x = true := by
        rw [valid.attached_met named removed]
        simp [attached, same]
      obtain ⟨into, before, after, s₁, m₁, s₂, m₂, hoists, under, lower, upper', removed', rest', counted⟩ :=
        ih first.valid still gone
      obtain ⟨rfl, rfl⟩ := HoistCount.mk.inj counted
      exact ⟨into, before, after, s₁, m₁ + 1, s₂, m₂, .meet named higher parse upper removed hoists,
        under, lower, upper', removed', rest', by rw [Nat.add_right_comm (m₁ + 1)]⟩

theorem WentInto.coerces {into : NodeId} {field : String} (went : WentInto f g n id into)
    (valid : f.WellFormed) (coerces : ((g.step id).coercion field).isSome = true) :
    ((g.step into).coercion field).isSome = true := by
  obtain ⟨before, after, s, m, s', m', hoists, named, parse, upper, removed, rest, _⟩ := went
  have valid' := (hoists.hoisted valid).valid
  have met := valid'.met_relinked named removed
  have behind := rest.hoisted met.1
  have gone : after.isAttached id = false := by
    rw [valid'.attached_met named removed]
    simp
  rw [behind.loose id gone, WellFormed.step_met_of_ne met.2 (valid'.ne_parent named)] at coerces
  have taken : ((after.step into).coercion field).isSome = true := by
    rw [valid'.coercion_met_upper named parse upper removed, Option.isSome_or, coerces, Bool.or_true]
  obtain ⟨c, same⟩ := Option.isSome_iff_exists.mp taken
  rw [behind.coercion into field c same]
  rfl

namespace WellFormed

theorem hoist_stuck (valid : f.WellFormed) (attached : f.isAttached id = true)
    (parse : (f.step id).isParse = true) (fuel : Nat) (enough : (f.lineage id).length ≤ fuel)
    (done : Forest.hoist id fuel f n = .ok (g, n')) (still : g.isAttached id = true) : g.Stuck id := by
  induction fuel generalizing f n with
  | zero =>
    have some := List.length_pos_of_mem (valid.mem_lineage_iff.mpr (.here : Above f.parent? id id))
    omega
  | succ fuel ih =>
    unfold Forest.hoist at done
    cases named : f.parent? id with
    | none =>
      simp only [named] at done
      cases done
      intro p under
      rw [named] at under
      cases under
    | some p =>
      by_cases meets : (f.step p).isParse = true
      · obtain ⟨h, removed, _⟩ := valid.merged .empty named parse
        simp only [named, meets, if_true, removed, bind_ok] at done
        cases done
        rw [valid.attached_met named removed] at still
        simp at still
      · by_cases blocked : f.blocks p id = true
        · simp only [named, meets, blocked, if_true, Bool.false_eq_true, if_false] at done
          cases done
          intro q under
          rw [named] at under
          cases under
          exact ⟨Bool.eq_false_iff.mpr meets, blocked⟩
        · obtain ⟨h, swapped, valid', relinked⟩ :=
            valid.swapWithParent named (valid.placed_of_attached named attached)
          simp only [named, meets, blocked, Bool.false_eq_true, if_false, swapped, bind_ok] at done
          have shorter := valid.lineage_climbed valid' named relinked
          have attached' := (valid.attached_same valid' named relinked id).trans attached
          exact ih valid' attached' ((relinked.step id).symm ▸ parse) (by omega) done

theorem hoistEach_stuck (valid : f.WellFormed) (parses : ∀ id ∈ ids, (f.step id).isParse = true)
    (done : ids.foldlM Forest.hoistNext (f, n) = .ok (g, n')) (listed : x ∈ ids)
    (still : g.isAttached x = true) : g.Stuck x := by
  induction ids generalizing f n with
  | nil => cases listed
  | cons id ids ih =>
    have parse := parses id (List.mem_cons_self ..)
    obtain ⟨h, middle, next, valid', kept, _⟩ := valid.hoistNext .empty parse n
    rw [List.foldlM_cons, next] at done
    have parses' : ∀ x ∈ ids, (h.step x).isParse = true := fun x member =>
      (kept x).trans (parses x (List.mem_cons_of_mem _ member))
    rcases List.mem_cons.mp listed with rfl | later
    · obtain ⟨s, m, _, rest⟩ := valid'.hoists_hoistEach middle n' ids parses' done
      have behind := rest.hoisted valid'
      have higher := behind.attached x still
      apply behind.stuck x ((kept x).trans parse)
      unfold Forest.hoistNext at next
      by_cases attached : f.isAttached x = true
      · rw [if_pos attached] at next
        exact valid.hoist_stuck attached parse f.size
          (valid.lineage_length (valid.attached_known attached)) next higher
      · rw [if_neg attached] at next
        cases next
        exact absurd higher attached
    · exact ih valid' parses' done later

theorem moveParseUp_stuck (valid : f.WellFormed) (done : f.moveParseUp = .ok (g, n))
    (attached : g.isAttached x = true) (parse : (g.step x).isParse = true) : g.Stuck x := by
  have hoisted := (valid.hoists_moveParseUp done).hoisted valid
  rw [hoisted.parses] at parse
  have listed : x ∈ f.parses :=
    List.mem_filter.mpr ⟨valid.mem_walkAll_iff.mpr (hoisted.attached x attached), parse⟩
  exact valid.hoistEach_stuck (fun _ member => (List.mem_filter.mp member).2) done listed attached

theorem hoist_of_stuck (stuck : f.Stuck id) (fuel : Nat) : Forest.hoist id fuel f n = .ok (f, n) := by
  cases fuel with
  | zero => rfl
  | succ fuel =>
    unfold Forest.hoist
    cases named : f.parent? id with
    | none => rfl
    | some p =>
      obtain ⟨plain, blocked⟩ := stuck p named
      simp [plain, blocked]

theorem moveParseUp_of_stuck (valid : f.WellFormed)
    (stuck : ∀ x, f.isAttached x = true → (f.step x).isParse = true → f.Stuck x) :
    f.moveParseUp = .ok (f, ⟨0, 0⟩) := by
  have each : ∀ ids : List NodeId, (∀ x ∈ ids, f.Stuck x) →
      ids.foldlM Forest.hoistNext (f, ⟨0, 0⟩) = .ok (f, ⟨0, 0⟩) := by
    intro ids all
    induction ids with
    | nil => rfl
    | cons id ids ih =>
      obtain ⟨first, rest⟩ := List.forall_mem_cons.mp all
      have stays : Forest.hoistNext (f, ⟨0, 0⟩) id = .ok (f, ⟨0, 0⟩) := by
        unfold Forest.hoistNext
        rw [hoist_of_stuck first, ite_self]
      rw [List.foldlM_cons, stays]
      exact ih rest
  refine each f.parses fun x member => ?_
  obtain ⟨visited, parse⟩ := List.mem_filter.mp member
  exact stuck x (valid.mem_walkAll_iff.mp visited) parse

end WellFormed

-- One pass of hoisting leaves each attached coercion at the top, under a source, or under what is no
-- coercion and either has other children or makes one of the coerced fields, so that a second pass does
-- nothing. No longer attached are just the coercions that it counts as merged, and what such a one
-- coerces is coerced by the one it went into.
theorem moveParseUp_completes (valid : f.WellFormed) :
    ∃ g n, f.moveParseUp = .ok (g, n) ∧ g.WellFormed ∧
      (∀ id, g.isAttached id = true → (g.step id).isParse = true →
        id ∈ g.roots ∨ ∃ p, g.parent? id = some p ∧
          ((g.step p).isSource = true ∨ (g.step p).isParse = false ∧
            (2 ≤ (g.children p).length ∨ ∃ field, ((g.step id).coercion field).isSome = true ∧
              field ∈ (g.step p).produced.toList))) ∧
      g.moveParseUp = .ok (g, ⟨0, 0⟩) ∧
      (∀ id, g.isAttached id = true → f.isAttached id = true) ∧
      f.attachedIds.length = g.attachedIds.length + n.merged ∧
      (∀ id field c, (f.step id).coercion field = some c → (g.step id).coercion field = some c) ∧
      ∀ id, f.isAttached id = true → g.isAttached id = false →
        (f.step id).isParse = true ∧ ∃ into, WentInto f g n id into ∧
          ∀ field, ((g.step id).coercion field).isSome = true →
            ((g.step into).coercion field).isSome = true := by
  obtain ⟨g, n, done, valid', _⟩ := valid.moveParseUp .empty
  have hoists := valid.hoists_moveParseUp done
  have hoisted := hoists.hoisted valid
  have stuck : ∀ x, g.isAttached x = true → (g.step x).isParse = true → g.Stuck x :=
    fun x => valid.moveParseUp_stuck done
  have moves : Moves .empty f ⟨0, n.swapped, n.merged, 0⟩ g := hoists.moves
  have paid := (moves.pays valid).fewer
  refine ⟨g, n, done, valid', ?_, valid'.moveParseUp_of_stuck stuck, hoisted.attached,
    by simpa using paid, hoisted.coercion, ?_⟩
  · intro id attached parse
    cases named : g.parent? id with
    | none => exact .inl (valid'.root_of_attached_top attached named)
    | some p =>
      obtain ⟨plain, blocked⟩ := stuck id attached parse p named
      refine .inr ⟨p, rfl, ?_⟩
      rcases blocks_iff.mp blocked with source | several | ⟨field, coerced, produced⟩
      · exact .inl source
      · exact .inr ⟨plain, .inl several⟩
      · exact .inr ⟨plain, .inr ⟨field, (Step.coercion_isSome_iff parse).mpr coerced, produced⟩⟩
  · intro id attached gone
    obtain ⟨into, went⟩ := hoists.went_into valid attached gone
    have parse : (f.step id).isParse = true := by
      obtain ⟨before, after, s, m, s', m', hoists', named, parse, _⟩ := went
      rw [← (hoists'.hoisted valid).parses, parse]
    exact ⟨parse, into, went, fun field => went.coerces valid⟩

-- The lower of two coercions passes the filter between them and goes into the upper one.
theorem moveParseUp_completes_twice :
    ∃ g, coercedTwice.WellFormed ∧ coercedTwice.moveParseUp = .ok (g, ⟨1, 1⟩) ∧
      g.moveParseUp = .ok (g, ⟨0, 0⟩) ∧ g.children ⟨1⟩ = [⟨2⟩] ∧ g.isAttached ⟨3⟩ = false ∧
      ∃ into, WentInto coercedTwice g ⟨1, 1⟩ ⟨3⟩ into ∧
        ((g.step into).coercion "year").isSome = true := by
  obtain ⟨g, n, done, _, _, again, _, _, kept, went⟩ := moveParseUp_completes wellFormed_coercedTwice
  have seen : coercedTwice.moveParseUp.toOption.map (fun r =>
      (r.2, r.1.children ⟨1⟩, r.1.isAttached ⟨3⟩)) = some (⟨1, 1⟩, [⟨2⟩], false) := by decide +kernel
  rw [done] at seen
  obtain ⟨counted, left⟩ := Prod.ext_iff.mp (Option.some.inj seen)
  obtain ⟨alone, gone⟩ := Prod.ext_iff.mp left
  cases counted
  obtain ⟨_, into, way, coerces⟩ := went ⟨3⟩ (by decide) gone
  refine ⟨g, wellFormed_coercedTwice, done, again, alone, gone, into, way, coerces "year" ?_⟩
  rw [kept ⟨3⟩ "year" .date (by decide)]
  rfl

end Forest
end Viewflow.Flow
