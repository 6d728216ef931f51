import Viewflow.Proofs.Lowering.Requests
import Viewflow.Proofs.Passes.Asked

namespace Viewflow.Flow

variable {f : Forest} {l l' : Lowering} {head id : NodeId} {tips more : List NodeId} {v : UnitView}
  {p : Pipeline} {registry : Registry} {index : Index} {views : List UnitView}
  {outputs : List Outputs}

namespace Forest

structure Tipped (f : Forest) (tips : List NodeId) : Prop where
  valid : f.WellFormed
  within : ∀ id, id.index < f.size → f.children id = [] → id ∈ tips

theorem Tipped.weaken (tipped : f.Tipped tips) (sub : tips ⊆ more) : f.Tipped more :=
  ⟨tipped.valid, fun id known childless => sub (tipped.within id known childless)⟩

theorem known_addNode (f : Forest) (name : String) (step : Step) :
    id.index < (f.addNode name step).1.size ↔ id = f.nextId ∨ id.index < f.size := by
  rw [size_addNode, Nat.lt_succ_iff_lt_or_eq, or_comm]
  obtain ⟨i⟩ := id
  simp [nextId, size]

theorem Tipped.addRoot (tipped : f.Tipped tips) (name : String) (step : Step) :
    (f.addRoot name step).1.Tipped (f.nextId :: tips) := by
  refine ⟨tipped.valid.addRoot name step, ?_⟩
  intro id known childless
  rcases (known_addNode f name step).mp known with new | old
  · exact new ▸ List.mem_cons_self ..
  · refine List.mem_cons_of_mem _ (tipped.within id old ?_)
    exact (children_addNode f name step id).symm.trans childless

theorem Tipped.addUnder (tipped : f.Tipped (head :: tips)) (known : head.index < f.size)
    (name : String) (step : Step) : (f.addUnder head name step).1.Tipped (f.nextId :: tips) := by
  obtain ⟨valid, relinked⟩ := tipped.valid.addUnder known name step
  refine ⟨valid, ?_⟩
  intro id known' childless
  rw [relinked.children] at childless
  rw [relinked.size] at known'
  rcases (known_addNode f name step).mp known' with new | old
  · exact new ▸ List.mem_cons_self ..
  · by_cases here : id = head
    · simp [here] at childless
    · rw [if_neg here, List.append_nil] at childless
      rcases List.mem_cons.mp (tipped.within id old childless) with same | listed
      · exact absurd same here
      · exact List.mem_cons_of_mem _ listed

end Forest

namespace Lowering

-- The strand that is being laid is loose at its head only.
structure Laying (l : Lowering) (head : NodeId) (tips : List NodeId) : Prop where
  tipped : l.forest.Tipped (head :: tips)
  known : head.index < l.forest.size

theorem Laying.extend (laying : l.Laying head tips) (step : NamedStep) :
    (l.extend head step).1.Laying (l.extend head step).2 tips :=
  ⟨laying.tipped.addUnder laying.known step.1 step.2,
    (Forest.tip_addUnder laying.tipped.valid laying.known step.1 step.2).known⟩

theorem Laying.extendAll (laying : l.Laying head tips) (steps : List NamedStep) :
    (l.extendAll head steps).1.Laying (l.extendAll head steps).2 tips := by
  induction steps generalizing l head with
  | nil => exact laying
  | cons step steps ih => exact ih (laying.extend step)

theorem Laying.output (laying : l.Laying head tips) (node name : String) (kind : OutputKind) :
    (l.output head node name kind).1.Laying (l.output head node name kind).2 tips :=
  have laying : ({ l with demand := l.demand.register name } : Lowering).Laying head tips :=
    ⟨laying.tipped, laying.known⟩
  laying.extend _

theorem laying_source (tipped : l.forest.Tipped tips)
    (known : ∀ key id, l.sources.find? key = some id → id.index < l.forest.size) (data : DataRef) :
    (l.source data).1.Laying (l.source data).2 tips := by
  unfold Lowering.source
  cases found : l.sources.find? data.key with
  | some id => exact ⟨tipped.weaken (List.subset_cons_self ..), known _ id found⟩
  | none =>
    refine ⟨tipped.addRoot "source" (.source data), ?_⟩
    exact (Forest.known_addNode l.forest "source" (.source data)).mpr (.inl rfl)

theorem tipped_lay (tipped : l.forest.Tipped tips)
    (known : ∀ key id, l.sources.find? key = some id → id.index < l.forest.size) (v : UnitView)
    (p : Pipeline) : (l.lay v p).1.forest.Tipped ((l.lay v p).2.main :: tips) := by
  have source := laying_source tipped known v.data
  have raw := (source.extendAll p.early).output "raw" (v.unitName ++ "_raw") .raw
  have main := (raw.extendAll p.late).output "main" (v.unitName ++ "_main") .main
  exact main.tipped

theorem tipped_addViews {seen : List UnitView} (strands : l.forest.Strands Boundary.IsRaw)
    (sourced : l.Sourced seen) (tipped : l.forest.Tipped tips)
    (done : l.addViews registry index views = .ok (l', outputs)) :
    l'.forest.Tipped (outputs.map (·.main) ++ tips) := by
  induction views generalizing l seen outputs tips with
  | nil =>
    cases done
    exact tipped
  | cons v views ih =>
    obtain ⟨⟨l₁, o⟩, added, done⟩ := bind_eq_ok done
    obtain ⟨p, found, laid⟩ := bind_eq_ok added
    cases laid
    obtain ⟨⟨l₂, others⟩, rest, done⟩ := bind_eq_ok done
    cases done
    have known : ∀ key id, l.sources.find? key = some id → id.index < l.forest.size := by
      intro key id listed
      exact strands.valid.rootKnown id (sourced.known key id listed).1
    obtain ⟨strands₁, _, sourced₁, _, _⟩ := lay_spec strands sourced found
    refine (ih strands₁ sourced₁ (tipped_lay tipped known v p) rest).weaken ?_
    intro id
    simp only [List.map_cons, List.mem_append, List.mem_cons]
    tauto

-- Every strand ends in the main output of a view, which its marks ask for; nothing else is asked for.
theorem asked_lowered (laid : Lowering.empty.addViews registry index views = .ok (l, outputs))
    (requested : l.requestMain outputs = .ok l') :
    l'.forest.Asked l'.demand (outputs.map (·.main)) := by
  obtain ⟨strands, _, every⟩ := lowered_spec laid requested
  have none : Lowering.empty.forest.Tipped [] :=
    ⟨.empty, fun id known => absurd known (Nat.not_lt_zero _)⟩
  have tipped := tipped_addViews (.empty _) .empty none laid
  rw [List.append_nil, ← (requestMain_spec requested).1] at tipped
  refine ⟨?_, ?_⟩
  · intro id attached childless
    have listed := tipped.within id (strands.valid.attached_known attached) childless
    obtain ⟨o, member, rfl⟩ := List.mem_map.mp listed
    obtain ⟨v, _, p, _, _, delivers⟩ := forall₂_exists every member
    obtain ⟨b, output, required⟩ := delivers.wanted
    simp [Forest.wanted, output, required]
  · intro id attached wanted
    apply tipped.within id (strands.valid.attached_known attached)
    by_contra some
    obtain ⟨c, under⟩ := strands.valid.exists_child.mp some
    unfold Forest.wanted at wanted
    split at wanted
    · next b output =>
      rw [strands.inner c id b under output] at wanted
      cases wanted
    · cases wanted

end Lowering
end Viewflow.Flow
