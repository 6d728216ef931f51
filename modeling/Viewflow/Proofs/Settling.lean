import Viewflow.Proofs.Compiled
import Viewflow.Proofs.Failures.Compiled
import Viewflow.Proofs.Passes.Rounds

namespace Viewflow.Flow

variable {l l' : Lowering} {v : UnitView} {views : List UnitView} {outputs : List Outputs}
  {p : Pipeline} {ps : List Pipeline} {registry : Registry} {index : Index} {steps : List Step}

def Pipeline.coerces (v : UnitView) : Bool := !(Pipeline.coercions v).isEmpty

namespace Forest

theorem sum_wayUp_plain (plain : ∀ s ∈ steps, s.isParse = false) (start : Nat) :
    ((steps.zipIdx start).map wayUp).sum = 0 := by
  apply List.sum_eq_zero
  intro way member
  obtain ⟨layer, listed, rfl⟩ := List.mem_map.mp member
  simp [wayUp, plain layer.1 (List.fst_mem_of_mem_zipIdx listed)]

theorem sum_wayUp_inside (layers : List (Step × Nat)) :
    ((layers.filter Lowering.inside).map wayUp).sum = (layers.map wayUp).sum := by
  induction layers with
  | nil => rfl
  | cons layer layers ih =>
    rw [List.filter_cons, List.map_cons, List.sum_cons]
    split
    · rw [List.map_cons, List.sum_cons, ih]
    · next outside =>
      have source : layer.1.isSource = true := by simpa [Lowering.inside] using outside
      simp [ih, wayUp, Step.not_parse_of_source source]

theorem sum_wayUp_body (found : Pipeline.ofView registry index v = .ok p) :
    (((Pipeline.body v p).zipIdx 1).map wayUp).sum =
      if Pipeline.coerces v then v.transform.length else 0 := by
  obtain ⟨own, encoded, made, encodes, ordered⟩ := Pipeline.steps_spec found v.data
  have body : Pipeline.body v p = own.map Prod.snd ++ ((Pipeline.coercionSteps v).map Prod.snd ++
      Pipeline.after index v encoded) := (List.cons.inj ordered).2
  have before : ∀ s ∈ own.map Prod.snd, s.isParse = false := fun s member =>
    Pipeline.before_not_parse v.data made s (List.mem_cons_of_mem _ member)
  have after := Pipeline.after_not_parse index encodes
  have length : own.length = v.transform.length := (forall₂_of_mapM made).length_eq.symm
  rw [body, List.zipIdx_append, List.zipIdx_append, List.map_append, List.map_append, List.sum_append,
    List.sum_append, sum_wayUp_plain before, sum_wayUp_plain after, List.length_map, length]
  unfold Pipeline.coerces Pipeline.coercionSteps
  by_cases none : (Pipeline.coercions v).isEmpty = true <;>
    simp [none, wayUp, Step.isParse, Nat.add_comm]

theorem sum_wayUp_views
    (every : List.Forall₂ (fun v p => Pipeline.ofView registry index v = .ok p) views ps) :
    ((List.zipWith (fun v p => (Pipeline.body v p).zipIdx 1) views ps).flatten.map wayUp).sum =
      ((views.filter Pipeline.coerces).map (·.transform.length)).sum := by
  induction every with
  | nil => rfl
  | @cons v p views ps found _ ih =>
    rw [List.zipWith_cons_cons, List.flatten_cons, List.map_append, List.sum_append, ih,
      sum_wayUp_body found, List.filter_cons]
    split <;> simp

end Forest

namespace Lowering

theorem waysUp_addViews (laid : Lowering.empty.addViews registry index views = .ok (l, outputs)) :
    l.forest.waysUp = ((views.filter Pipeline.coerces).map (·.transform.length)).sum := by
  obtain ⟨ps, every, layers⟩ := layers_addViews (.empty _) .empty laid
  rw [Forest.waysUp, ← Forest.sum_wayUp_inside, layers, List.map_append, List.sum_append,
    Forest.sum_wayUp_views every]
  exact Nat.zero_add _

-- With all main outputs asked for, the passes stop because a round changes nothing, at the latest the
-- second; they remove nothing, and every coercion ends right below its source, past each of its view's
-- own transforms.
theorem optimize_settles (laid : Lowering.empty.addViews registry index views = .ok (l, outputs))
    (bound : Nat) (enough : 2 ≤ bound) :
    ∃ l' g tally, l.requestMain outputs = .ok l' ∧
      l'.forest.optimize l'.demand bound = .ok (g, tally) ∧
      l'.forest.StopsStill l'.demand g tally ∧ tally.rounds ≤ 2 ∧ tally.removed = 0 ∧
      tally.swapped = ((views.filter Pipeline.coerces).map (·.transform.length)).sum ∧
      ∀ id, g.isAttached id = true → (g.step id).isParse = true →
        ∃ r ∈ g.roots, g.parent? id = some r ∧ (g.step r).isSource = true := by
  obtain ⟨l', asked⟩ := requestMain_reports (mains_of_addViews laid)
  have strands := (lowered_spec laid asked).1
  have ways := waysUp_addViews laid
  rw [← (requestMain_spec asked).1] at ways
  obtain ⟨h, g, merged, tally, _, _, done, settled, keeps, removed, swapped, few, stops⟩ :=
    strands.optimize_parts (asked_lowered laid asked) bound
  refine ⟨l', g, tally, asked, done, stops enough, few, removed, swapped.trans ways, ?_⟩
  intro id attached parse
  cases named : g.parent? id with
  | none =>
    have source := strands.rooted id (keeps.roots (settled.valid.root_of_attached_top attached named))
    rw [← keeps.step, Step.not_source_of_parse parse] at source
    cases source
  | some r =>
    have source := settled.grounded id r attached parse named
    have higher := (settled.valid.attached_iff_parent named).mp attached
    exact ⟨r, settled.valid.root_of_attached_top higher (settled.sources r source), rfl, source⟩

-- One of the two views has a formula for its coercion to climb past; the coercions become one then.
theorem optimize_settles_shared_file :
    ∃ l outputs l' g tally,
      Lowering.empty.addViews .builtIn .empty plottedTwice.views = .ok (l, outputs) ∧
      l.requestMain outputs = .ok l' ∧ l'.forest.optimize l'.demand 2 = .ok (g, tally) ∧
      tally.rounds ≤ 2 ∧ tally.removed = 0 ∧ tally.swapped = 1 := by
  have lays : (Lowering.empty.addViews .builtIn .empty plottedTwice.views).toOption.map
      (fun _ => true) = some true := by decide +kernel
  obtain ⟨⟨l, outputs⟩, laid, _⟩ := Forest.exists_ok lays
  obtain ⟨l', g, tally, asked, done, _, few, removed, swapped, _⟩ :=
    optimize_settles laid 2 (Nat.le_refl 2)
  exact ⟨l, outputs, l', g, tally, laid, asked, done, few, removed,
    swapped.trans (by decide +kernel)⟩

end Lowering
end Viewflow.Flow
