import Viewflow.Flow.Optimize
import Viewflow.Proofs.Passes.Hoist
import Viewflow.Proofs.Passes.Merge
import Viewflow.Proofs.Passes.Prune

namespace Viewflow.Flow.Forest

variable {f : Forest} {demand : Demand}

theorem notParse_of_same (a b : Step) (equal : a.same b = true) : notParse a = notParse b := by
  rw [notParse, notParse, Step.isParse_of_same equal]

namespace WellFormed

theorem round (valid : f.WellFormed) (demand : Demand) :
    ∃ g tally, f.round demand = .ok (g, tally) ∧ g.WellFormed ∧ Carries notParse demand f g := by
  obtain ⟨g₁, removed, pruned, valid₁, carried₁, _⟩ := valid.removeUnused demand
  obtain ⟨g₂, hoisted, climbed, valid₂, carried₂⟩ := valid₁.moveParseUp demand
  obtain ⟨g₃, merged, joined, valid₃, carried₃, _⟩ := valid₂.mergeSiblings demand
  refine ⟨g₃, ⟨removed, hoisted.swapped, hoisted.merged + merged, 1⟩, ?_, valid₃,
    ((carried₁.narrow notParse_of_same).trans carried₂).trans (carried₃.narrow notParse_of_same)⟩
  unfold Forest.round
  simp only [pruned, climbed, joined, bind_ok]
  rfl

theorem rounds (valid : f.WellFormed) (bound : Nat) (total : Tally) :
    ∃ g tally, Forest.rounds demand bound f total = .ok (g, tally) ∧ g.WellFormed ∧
      Carries notParse demand f g := by
  induction bound generalizing f total with
  | zero => exact ⟨f, total, rfl, valid, .refl notParse demand f⟩
  | succ bound ih =>
    obtain ⟨g, once, done, valid', carried⟩ := valid.round demand
    by_cases still : once.changes = 0
    · refine ⟨g, total.add once, ?_, valid', carried⟩
      unfold Forest.rounds
      simp only [done, bind_ok, still, if_true]
      rfl
    · obtain ⟨h, tally, rest, valid'', carried'⟩ := ih valid' (total.add once)
      refine ⟨h, tally, ?_, valid'', carried.trans carried'⟩
      unfold Forest.rounds
      simp only [done, bind_ok, still, if_false]
      exact rest

theorem optimize (valid : f.WellFormed) (demand : Demand) (bound : Nat) :
    ∃ g tally, f.optimize demand bound = .ok (g, tally) ∧ g.WellFormed ∧
      Carries notParse demand f g :=
  valid.rounds (max bound 1) Tally.zero

end WellFormed

-- Whoever asked for an output below a root finds it under its number, behind the same steps in the
-- same order but for the coercions.
theorem optimize_keeps_route (valid : f.WellFormed) (demand : Demand) (bound : Nat) :
    ∃ g tally, f.optimize demand bound = .ok (g, tally) ∧
      ∀ id b, f.step id = .output b → demand.isRequired b.name = true →
        (f.parent? id).isSome = true → f.isAttached id = true →
        (g.parent? id).isSome = true ∧ g.isAttached id = true ∧ g.step id = .output b ∧
          Step.Alike ((f.route id).filter notParse) ((g.route id).filter notParse) := by
  obtain ⟨g, tally, done, _, carried⟩ := valid.optimize demand bound
  refine ⟨g, tally, done, ?_⟩
  intro id b output required placed attached
  have delivers : f.Delivers demand id := ⟨⟨b, output, required⟩, placed, attached⟩
  have delivers' := carried.delivers id delivers
  exact ⟨delivers'.placed, delivers'.attached, (carried.step id delivers).trans output,
    carried.alike id delivers⟩

-- The coercion changes places with the filter above it; the output is still behind the filter.
theorem optimize_keeps_route_behind_filter :
    ∃ (f g : Forest) (tally : Tally), f.WellFormed ∧
      f.optimize (Demand.empty.request "v_main") 2 = .ok (g, tally) ∧ tally.swapped = 1 ∧
      (g.parent? ⟨3⟩).isSome = true ∧ g.isAttached ⟨3⟩ = true ∧
      g.step ⟨3⟩ = .output (.fresh "v_main" .main) ∧
      Step.Alike ((f.route ⟨3⟩).filter notParse) ((g.route ⟨3⟩).filter notParse) := by
  have root := WellFormed.empty.addRoot "source" (.source (.named "cars"))
  have filtered := (root.addUnder (p := ⟨0⟩) (by decide) "filter" (.filter "datum.year" .empty)).1
  have coerced := (filtered.addUnder (p := ⟨1⟩) (by decide) "parse"
    (.parse (Keyed.empty.put "year" .number))).1
  have valid := (coerced.addUnder (p := ⟨2⟩) (by decide) "main"
    (.output (.fresh "v_main" .main))).1
  obtain ⟨g, tally, done, kept⟩ := optimize_keeps_route valid (Demand.empty.request "v_main") 2
  have swapped : tally.swapped = 1 := by
    have counted := congrArg (fun r => r.toOption.map fun r => r.2.swapped) done
    exact Option.some.inj (counted.symm.trans (by decide +kernel))
  exact ⟨_, g, tally, valid, done, swapped,
    kept ⟨3⟩ (.fresh "v_main" .main) rfl (by decide) (by decide) (by decide)⟩

end Viewflow.Flow.Forest
