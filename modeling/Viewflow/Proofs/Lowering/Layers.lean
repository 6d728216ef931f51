import Viewflow.Proofs.Lowering.Tips

namespace Viewflow.Flow

variable {f g : Forest} {l l' l'' : Lowering} {head id id' x : NodeId} {as bs : List Step}
  {v : UnitView} {seen views : List UnitView} {outputs : List Outputs} {p : Pipeline}
  {registry : Registry} {index : Index}

namespace Forest

-- The steps that are attached, each with the number of steps above it.
def layers (f : Forest) : List (Step × Nat) := f.attachedIds.map fun id => (f.step id, f.depth id)

theorem WellFormed.depth_under (valid : f.WellFormed) (named : f.parent? id = some head) :
    f.depth id = f.depth head + 1 := by
  have longer := congrArg List.length (valid.lineage_under named)
  rw [List.length_cons, valid.depth_succ, valid.depth_succ] at longer
  omega

theorem WellFormed.depth_top (valid : f.WellFormed) (top : f.parent? id = none) : f.depth id = 0 := by
  unfold depth
  rw [valid.lineage_top top]
  rfl

theorem Grows.layers (grows : Grows f g) (valid : f.WellFormed) (valid' : g.WellFormed)
    (size : g.size = f.size + 1) (roots : ∀ r ∈ g.roots, r.index < f.size → r ∈ f.roots)
    (attached : g.isAttached f.nextId = true) :
    g.layers = f.layers ++ [(g.step f.nextId, g.depth f.nextId)] := by
  have known : ∀ i ∈ List.range f.size, (⟨i⟩ : NodeId).index < f.size := fun i => List.mem_range.mp
  have same : ∀ x : NodeId, x.index < f.size → g.isAttached x = f.isAttached x := by
    intro x old
    unfold isAttached
    rw [grows.top valid valid' old, Bool.eq_iff_iff, List.contains_iff_mem, List.contains_iff_mem]
    exact ⟨fun root => roots _ root (valid.above_known (valid.top_spec x).1 old),
      fun root => grows.roots root⟩
  have ids : g.attachedIds = f.attachedIds ++ [f.nextId] := by
    unfold attachedIds everyId
    rw [size, List.range_succ, List.map_append, List.filter_append]
    congr 1
    · refine List.filter_congr fun x listed => ?_
      obtain ⟨i, within, rfl⟩ := List.mem_map.mp listed
      exact same ⟨i⟩ (known i within)
    · exact List.filter_eq_self.mpr fun x listed => List.mem_singleton.mp listed ▸ attached
  unfold Forest.layers
  rw [ids, List.map_append]
  congr 1
  refine List.map_congr_left fun x listed => ?_
  have old := valid.attached_known (valid.mem_attachedIds_iff.mp listed)
  unfold depth
  rw [grows.step x old, grows.lineage valid valid' old]

end Forest

namespace Pipeline

def body (v : UnitView) (p : Pipeline) : List Step :=
  p.early.map Prod.snd ++ rawStep v :: p.late.map Prod.snd ++ [mainStep v]

theorem body_plain (found : ofView registry index v = .ok p) :
    ∀ s ∈ body v p, s.isSource = false := by
  intro s member
  simp only [body, List.mem_append, List.mem_cons, List.mem_map, List.not_mem_nil, or_false] at member
  rcases member with (⟨s, early, rfl⟩ | rfl | ⟨s, late, rfl⟩) | rfl
  · exact (early_plain found s early).1
  · rfl
  · exact (Step.isPlain_iff.mp (late_plain found s late)).1
  · rfl

end Pipeline

namespace Lowering

-- A strand led on by some steps, which are all that is attached beside what was.
structure Lengthened (l l' : Lowering) (head id : NodeId) (steps : List Step) : Prop where
  valid : l'.forest.WellFormed
  attached : l'.forest.isAttached id = true
  depth : l'.forest.depth id = l.forest.depth head + steps.length
  layers : l'.forest.layers = l.forest.layers ++ steps.zipIdx (l.forest.depth head + 1)

theorem Lengthened.refl (valid : l.forest.WellFormed) (attached : l.forest.isAttached head = true) :
    Lengthened l l head head [] :=
  ⟨valid, attached, rfl, (List.append_nil _).symm⟩

theorem Lengthened.seq (one : Lengthened l l' head id as) (two : Lengthened l' l'' id id' bs) :
    Lengthened l l'' head id' (as ++ bs) where
  valid := two.valid
  attached := two.attached
  depth := by rw [two.depth, one.depth, List.length_append, Nat.add_assoc]
  layers := by
    rw [two.layers, one.layers, one.depth, List.zipIdx_append, List.append_assoc, Nat.add_right_comm]

theorem extend_lengthened (valid : l.forest.WellFormed) (attached : l.forest.isAttached head = true)
    (step : NamedStep) :
    Lengthened l (l.extend head step).1 head (l.extend head step).2 [step.2] := by
  have known := valid.attached_known attached
  obtain ⟨valid', relinked⟩ := valid.addUnder known step.1 step.2
  have tip := Forest.tip_addUnder valid known step.1 step.2
  have attached' := (valid'.attached_iff_parent tip.parent).mpr
    (tip.grows.attached valid valid' known attached)
  have size : (l.forest.addUnder head step.1 step.2).1.size = l.forest.size + 1 :=
    relinked.size.trans (Forest.size_addNode ..)
  have depth : (l.forest.addUnder head step.1 step.2).1.depth l.forest.nextId =
      l.forest.depth head + 1 := by
    rw [valid'.depth_under tip.parent, Forest.depth, tip.grows.lineage valid valid' known]
    rfl
  refine ⟨valid', attached', depth, ?_⟩
  have layers := tip.grows.layers valid valid' size (fun r root _ => tip.roots ▸ root) attached'
  rw [tip.step, depth] at layers
  exact layers

theorem extendAll_lengthened (valid : l.forest.WellFormed)
    (attached : l.forest.isAttached head = true) (steps : List NamedStep) :
    Lengthened l (l.extendAll head steps).1 head (l.extendAll head steps).2
      (steps.map Prod.snd) := by
  induction steps generalizing l head with
  | nil => exact .refl valid attached
  | cons step steps ih =>
    have first := extend_lengthened valid attached step
    exact first.seq (ih first.valid first.attached)

theorem output_lengthened (valid : l.forest.WellFormed) (attached : l.forest.isAttached head = true)
    (node name : String) (kind : OutputKind) :
    Lengthened l (l.output head node name kind).1 head (l.output head node name kind).2
      [.output (.fresh name kind)] := by
  have led := extend_lengthened (l := { l with demand := l.demand.register name }) valid attached
    (node, .output (.fresh name kind))
  exact ⟨led.valid, led.attached, led.depth, led.layers⟩

theorem layers_source (strands : l.forest.Strands Boundary.IsRaw) (data : DataRef) :
    ∃ fresh, (l.source data).1.forest.layers = l.forest.layers ++ fresh ∧
      ∀ layer ∈ fresh, layer.1.isSource = true := by
  unfold Lowering.source
  cases l.sources.find? data.key with
  | some id => exact ⟨[], (List.append_nil _).symm, by simp⟩
  | none =>
    have valid := strands.valid
    have valid' := valid.addRoot "source" (.source data)
    have root : l.forest.nextId ∈ (l.forest.addRoot "source" (.source data)).1.roots :=
      List.mem_append_right _ (List.mem_singleton.mpr rfl)
    refine ⟨_, (Forest.grows_addRoot l.forest "source" (.source data)).layers valid valid'
      (Forest.size_addNode ..) ?_ (valid'.attached_of_root root), ?_⟩
    · intro r root old
      rcases List.mem_append.mp root with before | new
      · exact before
      · exact absurd (List.mem_singleton.mp new) (Forest.nextId_ne old)
    · intro layer member
      rw [List.mem_singleton.mp member]
      have step := Forest.step_addNode l.forest "source" (.source data) l.forest.nextId
      rw [if_pos rfl] at step
      exact congrArg Step.isSource step

theorem layers_lay (strands : l.forest.Strands Boundary.IsRaw) (sourced : l.Sourced seen)
    (v : UnitView) (p : Pipeline) :
    ∃ fresh, (l.lay v p).1.forest.layers =
        l.forest.layers ++ fresh ++ (Pipeline.body v p).zipIdx 1 ∧
      ∀ layer ∈ fresh, layer.1.isSource = true := by
  obtain ⟨w, _, ready, _, _, route, attached, _⟩ := source_spec strands sourced v
  obtain ⟨fresh, layers, sources⟩ := layers_source strands v.data
  have valid := ready.strands.valid
  have bottom : (l.source v.data).1.forest.depth (l.source v.data).2 = 0 := by
    have single := congrArg List.length route
    unfold Forest.route at single
    rw [List.length_reverse, List.length_map, valid.depth_succ] at single
    simpa using single
  have one := extendAll_lengthened valid attached p.early
  have two := one.seq (output_lengthened one.valid one.attached "raw" (v.unitName ++ "_raw") .raw)
  have three := two.seq (extendAll_lengthened two.valid two.attached p.late)
  have four := three.seq
    (output_lengthened three.valid three.attached "main" (v.unitName ++ "_main") .main)
  refine ⟨fresh, ?_, sources⟩
  have whole := four.layers
  rw [bottom, layers] at whole
  refine whole.trans ?_
  simp [Pipeline.body, Pipeline.rawStep, Pipeline.mainStep]

def inside (layer : Step × Nat) : Bool := !layer.1.isSource

-- Below the sources stand the steps of the views, view by view.
theorem layers_addViews (strands : l.forest.Strands Boundary.IsRaw) (sourced : l.Sourced seen)
    (done : l.addViews registry index views = .ok (l', outputs)) :
    ∃ ps, List.Forall₂ (fun v p => Pipeline.ofView registry index v = .ok p) views ps ∧
      l'.forest.layers.filter inside = l.forest.layers.filter inside ++
        (List.zipWith (fun v p => (Pipeline.body v p).zipIdx 1) views ps).flatten := by
  induction views generalizing l seen outputs with
  | nil =>
    cases done
    exact ⟨[], .nil, (List.append_nil _).symm⟩
  | cons v views ih =>
    obtain ⟨⟨l₁, o⟩, added, done⟩ := bind_eq_ok done
    obtain ⟨p, found, laid⟩ := bind_eq_ok added
    cases laid
    obtain ⟨⟨l₂, others⟩, rest, done⟩ := bind_eq_ok done
    cases done
    obtain ⟨strands₁, _, sourced₁, _, _⟩ := lay_spec strands sourced found
    obtain ⟨ps, every, layers⟩ := ih strands₁ sourced₁ rest
    obtain ⟨fresh, first, sources⟩ := layers_lay strands sourced v p
    refine ⟨p :: ps, .cons found every, ?_⟩
    have outside : fresh.filter inside = [] := by
      apply List.filter_eq_nil_iff.mpr
      intro layer member
      simp [inside, sources layer member]
    have within : ((Pipeline.body v p).zipIdx 1).filter inside = (Pipeline.body v p).zipIdx 1 := by
      apply List.filter_eq_self.mpr
      intro layer member
      have plain := Pipeline.body_plain found layer.1 (List.fst_mem_of_mem_zipIdx member)
      simp [inside, plain]
    rw [layers, first, List.filter_append, List.filter_append, outside, within]
    simp

end Lowering
end Viewflow.Flow
