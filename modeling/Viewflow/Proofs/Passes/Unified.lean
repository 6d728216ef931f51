import Mathlib.Data.List.Pairwise
import Viewflow.Proofs.Passes.Twins

namespace Viewflow.Flow

namespace Step

theorem Alike.symm {as bs : List Step} (alike : Alike as bs) : Alike bs as :=
  (List.Forall₂.flip alike).imp fun _ _ equal => same_symm equal

end Step

namespace Forest

variable {f g h : Forest} {a b p x : NodeId} {ids : List NodeId} {n : Nat}

def SilentTwins (f : Forest) (a b : NodeId) : Prop :=
  (f.step a).isOutput = false ∧ (f.step a).same (f.step b) = true

theorem SilentTwins.symm (twins : f.SilentTwins a b) : f.SilentTwins b a :=
  ⟨(Step.isOutput_of_same twins.2).symm.trans twins.1, Step.same_symm twins.2⟩

theorem firstTwins_none (none : f.firstTwins? ids = none) :
    ids.Pairwise fun a b => ¬ f.SilentTwins a b := by
  induction ids with
  | nil => exact .nil
  | cons id later ih =>
    unfold firstTwins? at none
    cases found : f.twinOf? id later with
    | some _ =>
      rw [found] at none
      cases none
    | none =>
      rw [found] at none
      refine .cons ?_ (ih none)
      rintro b listed ⟨silent, equal⟩
      unfold twinOf? at found
      rw [silent, if_neg Bool.false_ne_true, List.find?_eq_none] at found
      exact found b listed equal

structure Unified (f g : Forest) : Prop where
  valid : g.WellFormed
  name : ∀ x, (g.node x).name = (f.node x).name
  step : ∀ x, g.step x = f.step x
  roots : g.roots = f.roots
  attached : ∀ x, g.isAttached x = true → f.isAttached x = true
  route : ∀ x, g.isAttached x = true → Step.Alike (f.route x) (g.route x)
  partner : ∀ x, f.isAttached x = true → g.isAttached x = false →
    ∃ y, g.isAttached y = true ∧ Step.Alike (f.route x) (f.route y)
  outputs : ∀ x, (f.step x).isOutput = true → f.isAttached x = true → g.isAttached x = true

namespace Unified

theorem refl (valid : f.WellFormed) : Unified f f where
  valid := valid
  name _ := rfl
  step _ := rfl
  roots := rfl
  attached _ attached := attached
  route x _ := .refl _
  partner x attached gone := by
    rw [attached] at gone
    cases gone
  outputs _ _ attached := attached

theorem trans (one : Unified f g) (two : Unified g h) : Unified f h where
  valid := two.valid
  name x := (two.name x).trans (one.name x)
  step x := (two.step x).trans (one.step x)
  roots := two.roots.trans one.roots
  attached x attached := one.attached x (two.attached x attached)
  route x attached := (one.route x (two.attached x attached)).trans (two.route x attached)
  partner x attached gone := by
    -- a node that is still there in the middle has its old way there
    have later : ∀ y, g.isAttached y = true →
        ∃ z, h.isAttached z = true ∧ Step.Alike (f.route y) (f.route z) := by
      intro y middle
      by_cases left : h.isAttached y = true
      · exact ⟨y, left, .refl _⟩
      · obtain ⟨z, left, alike⟩ := two.partner y middle (Bool.eq_false_iff.mpr left)
        exact ⟨z, left, ((one.route y middle).trans alike).trans
          (one.route z (two.attached z left)).symm⟩
    by_cases middle : g.isAttached x = true
    · exact later x middle
    · obtain ⟨y, middle, alike⟩ := one.partner x attached (Bool.eq_false_iff.mpr middle)
      obtain ⟨z, left, alike'⟩ := later y middle
      exact ⟨z, left, alike.trans alike'⟩
  outputs x output attached :=
    two.outputs x ((one.step x).symm ▸ output) (one.outputs x output attached)

end Unified

theorem WellFormed.unified_absorbed {kept twin : NodeId} (valid : f.WellFormed)
    (attached : f.isAttached p = true) (found : f.firstTwins? (f.children p) = some (kept, twin))
    (absorbed : f.absorb kept twin = .ok g) : Unified f g := by
  obtain ⟨apart, one, two, silent, equal⟩ := valid.twins_spec found
  obtain ⟨valid', down, relinked, _⟩ := of_ok (valid.absorb one two apart) absorbed
  have left : ∀ x, g.isAttached x = true ↔ f.isAttached x = true ∧ x ≠ twin := by
    intro x
    rw [valid.attached_without valid' two one apart relinked, Bool.and_eq_true, decide_eq_true_eq]
  have alike : ∀ x, x ≠ twin → Step.Alike (f.route x) (g.route x) := fun x =>
    valid.alike_absorbed valid' one two apart relinked equal
  refine ⟨valid', relinked.name, relinked.step, relinked.roots, ?_, ?_, ?_, ?_⟩
  · intro x higher
    exact ((left x).mp higher).1
  · intro x higher
    exact alike x ((left x).mp higher).2
  · intro x higher gone
    have same : x = twin := by
      by_contra other
      rw [(left x).mpr ⟨higher, other⟩] at gone
      cases gone
    refine ⟨kept, (left kept).mpr ⟨(valid.attached_iff_parent one).mpr attached, apart⟩, ?_⟩
    rw [same, valid.route_under one, valid.route_under two]
    exact List.rel_append (Step.Alike.refl _) (.cons (Step.same_symm equal) .nil)
  · intro x output higher
    refine (left x).mpr ⟨higher, ?_⟩
    rintro rfl
    rw [Step.isOutput_of_same equal, output] at silent
    cases silent

theorem Joins.unified (joins : Joins f n g) (valid : f.WellFormed) : Unified f g := by
  induction joins with
  | none => exact .refl valid
  | join attached found absorbed _ ih =>
    have first := valid.unified_absorbed attached found absorbed
    exact first.trans (ih first.valid)

-- One pass of merging leaves no two siblings that do the same, other than outputs. What is left is below
-- the same steps as before, and what is gone was below the same steps as somebody that is left. A parent
-- has no twins left by the time that it was merged once for each of its children.
theorem mergeSiblings_unifies (valid : f.WellFormed) :
    ∃ g n, f.mergeSiblings = .ok (g, n) ∧ g.WellFormed ∧
      (∀ p, g.isAttached p = true → ∀ a ∈ g.children p, ∀ b ∈ g.children p, a ≠ b →
        (g.step a).isOutput = false → (g.step a).same (g.step b) = false) ∧
      (∀ x, g.step x = f.step x) ∧
      (∀ x, g.isAttached x = true → f.isAttached x = true ∧ Step.Alike (f.route x) (g.route x)) ∧
      (∀ x, f.isAttached x = true → g.isAttached x = false →
        ∃ y, g.isAttached y = true ∧ Step.Alike (f.route x) (g.route y)) ∧
      (∀ x, (f.step x).isOutput = true → f.isAttached x = true → g.isAttached x = true) ∧
      f.attachedIds.length = g.attachedIds.length + n ∧
      (∀ p more merged, Forest.mergeChildren p ((f.children p).length + more) f merged =
        Forest.mergeChildren p (f.children p).length f merged) ∧
      g.mergeSiblings = .ok (g, 0) := by
  obtain ⟨g, n, done, valid', apart⟩ := valid.mergeSiblings_apart
  have joins := valid.joins_mergeSiblings done
  have unified := joins.unified valid
  have moves : Moves .empty f ⟨0, 0, n, 0⟩ g := joins.moves
  have paid := (moves.pays valid).fewer
  refine ⟨g, n, done, valid', ?_, unified.step, fun x higher =>
    ⟨unified.attached x higher, unified.route x higher⟩, ?_, unified.outputs, by simpa using paid,
    fun p more merged => valid.mergeChildren_enough p _ more merged (Nat.le_refl _),
    valid.mergeSiblings_twice done⟩
  · intro p higher a one b two different silent
    have : Std.Symm fun a b => ¬ g.SilentTwins a b := ⟨fun _ _ free twins => free twins.symm⟩
    have free := (firstTwins_none (apart p higher)).forall one two different
    exact Bool.eq_false_iff.mpr fun equal => free ⟨silent, equal⟩
  · intro x higher gone
    obtain ⟨y, left, alike⟩ := unified.partner x higher gone
    exact ⟨y, left, alike.trans (unified.route y left)⟩

def filteredTwice : Forest :=
  let (f, source) := Forest.empty.addRoot "source" (.source (.named "cars"))
  let (f, left) := f.addUnder source "filter" (.filter "datum.year" .empty)
  let (f, right) := f.addUnder source "filter" (.filter "datum.year" .empty)
  let (f, leftAge) := f.addUnder left "formula" (.formula "2020 - datum.year" "age")
  let (f, rightAge) := f.addUnder right "formula" (.formula "2020 - datum.year" "age")
  let (f, _) := f.addUnder leftAge "left" (.output (.fresh "left" .main))
  (f.addUnder rightAge "right" (.output (.fresh "right" .main))).1

theorem wellFormed_filteredTwice : filteredTwice.WellFormed := by
  have source := WellFormed.empty.addRoot "source" (.source (.named "cars"))
  have left := (source.addUnder (p := ⟨0⟩) (by decide) "filter" (.filter "datum.year" .empty)).1
  have right := (left.addUnder (p := ⟨0⟩) (by decide) "filter" (.filter "datum.year" .empty)).1
  have leftAge := (right.addUnder (p := ⟨1⟩) (by decide) "formula"
    (.formula "2020 - datum.year" "age")).1
  have rightAge := (leftAge.addUnder (p := ⟨2⟩) (by decide) "formula"
    (.formula "2020 - datum.year" "age")).1
  have one := (rightAge.addUnder (p := ⟨3⟩) (by decide) "left" (.output (.fresh "left" .main))).1
  exact (one.addUnder (p := ⟨4⟩) (by decide) "right" (.output (.fresh "right" .main))).1

-- The formulas become siblings only when the filters have become one, and one of them goes as well.
theorem mergeSiblings_unifies_formulas :
    ∃ g, filteredTwice.WellFormed ∧ filteredTwice.mergeSiblings = .ok (g, 2) ∧
      g.mergeSiblings = .ok (g, 0) ∧ g.isAttached ⟨4⟩ = false ∧
      (∃ y, g.isAttached y = true ∧ Step.Alike (filteredTwice.route ⟨4⟩) (g.route y)) ∧
      g.isAttached ⟨6⟩ = true ∧ Step.Alike (filteredTwice.route ⟨6⟩) (g.route ⟨6⟩) := by
  obtain ⟨g, n, done, _, _, _, ways, partner, outputs, _, _, again⟩ :=
    mergeSiblings_unifies wellFormed_filteredTwice
  have seen : filteredTwice.mergeSiblings.toOption.map (fun r => (r.2, r.1.isAttached ⟨4⟩)) =
      some (2, false) := by decide +kernel
  rw [done] at seen
  obtain ⟨counted, gone⟩ := Prod.ext_iff.mp (Option.some.inj seen)
  cases counted
  have left : g.isAttached ⟨6⟩ = true := outputs ⟨6⟩ (by decide) (by decide)
  exact ⟨g, wellFormed_filteredTwice, done, again, gone, partner ⟨4⟩ (by decide) gone, left,
    (ways ⟨6⟩ left).2⟩

end Forest
end Viewflow.Flow
