import Viewflow.Proofs.Lowering.Views

namespace Viewflow.Flow

variable {f : Forest} {l l' : Lowering} {id : NodeId} {as : List Step} {s : Step}
  {outputs : List Outputs} {registry : Registry} {index : Index} {views : List UnitView}

def Demand.Spares (d : Demand) (b : Boundary) : Prop := d.isRequired b.name = false

theorem Demand.isRequired_request (d : Demand) (name other : String) :
    (d.request name).isRequired other = (other == name || d.isRequired other) := by
  unfold Demand.isRequired Demand.count Demand.request
  rw [Keyed.find?_put]
  by_cases same : other = name
  · simp [same]
  · simp [same]

theorem Forest.boundary_spec {b : Boundary} (found : Failure.ofFlow (f.boundary id) = .ok b) :
    f.step id = .output b := by
  unfold boundary at found
  cases step : f.step id with
  | output _ =>
    rw [step] at found
    cases found
    rfl
  | _ =>
    rw [step] at found
    cases found

namespace Lowering

theorem request_spec (done : l.request id = .ok l') :
    ∃ b, l.forest.step id = .output b ∧ l'.forest = l.forest ∧
      ∀ name, l'.demand.isRequired name = (name == b.name || l.demand.isRequired name) := by
  obtain ⟨b, found, done⟩ := bind_eq_ok done
  cases done
  exact ⟨b, Forest.boundary_spec found, rfl, Demand.isRequired_request l.demand b.name⟩

theorem requestMain_spec (done : l.requestMain outputs = .ok l') :
    l'.forest = l.forest ∧ ∀ name, l'.demand.isRequired name = true ↔
      l.demand.isRequired name = true ∨
        ∃ o ∈ outputs, ∃ b, l.forest.step o.main = .output b ∧ b.name = name := by
  induction outputs generalizing l with
  | nil =>
    cases done
    simp
  | cons o outputs ih =>
    unfold requestMain at done
    rw [List.foldlM_cons] at done
    obtain ⟨l₁, first, rest⟩ := bind_eq_ok done
    obtain ⟨b, output, forest, required⟩ := request_spec first
    obtain ⟨forest', required'⟩ := ih rest
    refine ⟨forest'.trans forest, ?_⟩
    intro name
    rw [required' name, required name, forest, Bool.or_eq_true, beq_iff_eq, List.exists_mem_cons_iff,
      output]
    constructor
    · rintro ((same | before) | later)
      · exact .inr (.inl ⟨b, rfl, same.symm⟩)
      · exact .inl before
      · exact .inr (.inr later)
    · rintro (before | ⟨b', same, named⟩ | later)
      · exact .inl (.inr before)
      · cases same
        exact .inl (.inl named.symm)
      · exact .inr later

theorem raw_ne_main (unit unit' : String) : unit ++ "_raw" ≠ unit' ++ "_main" := by
  intro same
  have last := congrArg (fun s : String => s.toList.getLast?) same
  simp at last

end Lowering

namespace Forest.WellFormed

theorem step_of_route (valid : f.WellFormed) (route : f.route id = as ++ [s]) : f.step id = s := by
  cases named : f.parent? id with
  | none =>
    rw [valid.route_top named, ← List.nil_append [f.step id]] at route
    exact List.singleton_inj.mp (List.append_inj_right' route rfl)
  | some p =>
    rw [valid.route_under named] at route
    exact List.singleton_inj.mp (List.append_inj_right' route rfl)

theorem placed_of_route (valid : f.WellFormed) (route : f.route id = as ++ [s]) (long : as ≠ []) :
    (f.parent? id).isSome = true := by
  cases named : f.parent? id with
  | none =>
    rw [valid.route_top named, ← List.nil_append [f.step id]] at route
    exact absurd (List.append_inj_left' route rfl).symm long
  | some p => rfl

end Forest.WellFormed

namespace Lowering

-- The strands of all the views, each with what is asked for at its end and nowhere else.
theorem lowered_spec (laid : Lowering.empty.addViews registry index views = .ok (l, outputs))
    (asked : l.requestMain outputs = .ok l') :
    l'.forest.Strands l'.demand.Spares ∧
      (∀ r ∈ l'.forest.roots, ∃ w ∈ views, l'.forest.step r = .source w.data) ∧
      List.Forall₂ (fun v o => ∃ p, Pipeline.ofView registry index v = .ok p ∧
        Laid l'.forest views v p o ∧ l'.forest.Delivers l'.demand o.main) views outputs := by
  obtain ⟨strands, sourced, _, quiet, every⟩ := addViews_spec (.empty _) .empty laid
  obtain ⟨forest, required⟩ := requestMain_spec asked
  rw [List.nil_append] at every
  have main : ∀ v p o, Laid l.forest views v p o → l.forest.step o.main = Pipeline.mainStep v ∧
      (l.forest.parent? o.main).isSome = true := by
    intro v p o laid
    obtain ⟨w, _, route⟩ := laid.route
    unfold Pipeline.steps at route
    rw [← List.cons_append] at route
    exact ⟨strands.valid.step_of_route route,
      strands.valid.placed_of_route route (List.cons_ne_nil _ _)⟩
  have silent : ∀ b : Boundary, b.IsRaw → l'.demand.isRequired b.name = false := by
    rintro b ⟨unit, raw⟩
    apply Bool.eq_false_iff.mpr
    intro wanted
    rcases (required b.name).mp wanted with before | ⟨o, member, b', output, same⟩
    · rw [quiet] at before
      cases before
    · obtain ⟨v, _, p, _, laid⟩ := forall₂_exists every member
      rw [(main v p o laid).1] at output
      cases output
      exact raw_ne_main unit v.unitName (raw.symm.trans same.symm)
  rw [forest]
  obtain ⟨same, every'⟩ := List.forall₂_iff_zip.mp every
  refine ⟨strands.weaken silent, sourced.roots, List.forall₂_iff_zip.mpr ⟨same, fun {v o} pair => ?_⟩⟩
  obtain ⟨p, found, laid⟩ := every' pair
  obtain ⟨output, placed⟩ := main v p o laid
  have wanted := (required (v.unitName ++ "_main")).mpr
    (.inr ⟨o, (List.of_mem_zip pair).2, _, output, rfl⟩)
  exact ⟨p, found, laid, ⟨_, output, wanted⟩, placed, laid.attached⟩

end Lowering
end Viewflow.Flow
