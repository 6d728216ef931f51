import Viewflow.Proofs.Emission.Named
import Viewflow.Proofs.Emission.Prefix
import Viewflow.Proofs.Failures.Reports
import Viewflow.Proofs.Lowering.Tips
import Viewflow.Proofs.Passes.Alongside
import Viewflow.Proofs.Sourcing

namespace Viewflow.Flow

variable {f : Forest} {l l' l₁ l₂ : Lowering} {head : NodeId} {registry : Registry}
  {index index' : Index} {views more : List UnitView} {w : UnitView} {p : Pipeline}
  {outputs outputs' : List Outputs}

namespace Lowering

theorem addViews_yields
    (each : ∀ v ∈ views, Yields (Pipeline.ofView registry index v) (Pipeline.ofView registry index' v))
    (l : Lowering) : Yields (l.addViews registry index views) (l.addViews registry index' views) := by
  induction views generalizing l with
  | nil => exact .refl _
  | cons v views ih =>
    obtain ⟨first, others⟩ := List.forall_mem_cons.mp each
    exact first.then_same.bind fun laid => (ih others laid.1).then_same

theorem addViews_append (done : l.addViews registry index (views ++ more) = .ok (l', outputs')) :
    ∃ l₁ first later, l.addViews registry index views = .ok (l₁, first) ∧
      l₁.addViews registry index more = .ok (l', later) ∧ outputs' = first ++ later := by
  induction views generalizing l outputs' with
  | nil => exact ⟨l, [], outputs', rfl, done, rfl⟩
  | cons v views ih =>
    obtain ⟨⟨l₂, o⟩, added, done⟩ := bind_eq_ok done
    obtain ⟨⟨l₃, others⟩, rest, done⟩ := bind_eq_ok done
    cases done
    obtain ⟨l₁, first, later, laid, laid', rfl⟩ := ih rest
    refine ⟨l₁, o :: first, later, ?_, laid', rfl⟩
    unfold addViews
    rw [added]
    simp only [bind, Except.bind, laid]
    rfl

structure Aside (f : Forest) (l : Lowering) (head : NodeId) : Prop where
  beside : f.Beside f.size l.forest
  high : f.size ≤ head.index
  known : head.index < l.forest.size

theorem Aside.extend (aside : Aside f l head) (step : NamedStep) :
    Aside f (l.extend head step).1 (l.extend head step).2 := by
  have tip := Forest.tip_addUnder aside.beside.valid' aside.known step.1 step.2
  exact ⟨aside.beside.addUnder aside.high aside.known step.1 step.2, aside.beside.larger, tip.known⟩

theorem Aside.extendAll (aside : Aside f l head) (steps : List NamedStep) :
    Aside f (l.extendAll head steps).1 (l.extendAll head steps).2 := by
  induction steps generalizing l head with
  | nil => exact aside
  | cons step steps ih => exact ih (aside.extend step)

theorem Aside.output (aside : Aside f l head) (node name : String) (kind : OutputKind) :
    Aside f (l.output head node name kind).1 (l.output head node name kind).2 :=
  have aside : Aside f { l with demand := l.demand.register name } head :=
    ⟨aside.beside, aside.high, aside.known⟩
  aside.extend _

theorem aside_source (valid : l.forest.WellFormed) {data : DataRef}
    (fresh : l.sources.find? data.key = none) :
    Aside l.forest (l.source data).1 (l.source data).2 := by
  unfold Lowering.source
  rw [fresh]
  refine ⟨(Forest.Beside.refl valid).addRoot "source" (.source data), Nat.le_refl _, ?_⟩
  exact Nat.lt_of_lt_of_eq (Nat.lt_succ_self _) (Forest.size_addNode ..).symm

theorem beside_lay (valid : l.forest.WellFormed) (fresh : l.sources.find? w.data.key = none)
    (p : Pipeline) : l.forest.Beside l.forest.size (l.lay w p).1.forest := by
  have source := aside_source valid fresh
  have raw := (source.extendAll p.early).output "raw" (w.unitName ++ "_raw") .raw
  have main := (raw.extendAll p.late).output "main" (w.unitName ++ "_main") .main
  exact main.beside

theorem addViews_beside (laid : Lowering.empty.addViews registry index views = .ok (l, outputs))
    (laid' : Lowering.empty.addViews registry index' (views ++ [w]) = .ok (l', outputs'))
    (each : ∀ v ∈ views, Yields (Pipeline.ofView registry index v) (Pipeline.ofView registry index' v))
    (apart : ∀ v ∈ views, v.data.key ≠ w.data.key) :
    (∃ o, outputs' = outputs ++ [o]) ∧ l.forest.Beside l.forest.size l'.forest := by
  obtain ⟨l₁, first, later, before, behind, rfl⟩ := addViews_append laid'
  rw [addViews_yields each .empty _ laid] at before
  cases before
  obtain ⟨⟨l₂, o⟩, added, done⟩ := bind_eq_ok behind
  cases done
  obtain ⟨p, _, added⟩ := bind_eq_ok added
  cases added
  obtain ⟨strands, sourced, _⟩ := addViews_spec (.empty _) .empty laid
  refine ⟨⟨_, rfl⟩, beside_lay strands.valid ?_ p⟩
  cases found : l.sources.find? w.data.key with
  | none => rfl
  | some id =>
    obtain ⟨_, v, named, _⟩ := sourced.known _ id found
    exact absurd (key_firstWith named) (apart v (List.mem_of_find?_eq_some named))

-- An output is the main output of one of the views, or it is raw and nobody asks for it.
theorem output_lowered (laid : Lowering.empty.addViews registry index views = .ok (l, outputs))
    {x : NodeId} {b : Boundary} (output : l.forest.step x = .output b) :
    b.IsRaw ∨ ∃ o ∈ outputs, o.main = x := by
  obtain ⟨strands, _⟩ := addViews_spec (.empty _) .empty laid
  have none : Lowering.empty.forest.Tipped [] :=
    ⟨.empty, fun id known => absurd known (Nat.not_lt_zero _)⟩
  have tipped := tipped_addViews (.empty _) .empty none laid
  rw [List.append_nil] at tipped
  by_cases childless : l.forest.children x = []
  · exact .inr (List.mem_map.mp (tipped.within x (Forest.known_of_output output) childless))
  · obtain ⟨c, under⟩ := strands.valid.exists_child.mp childless
    exact .inl (strands.inner c x b under output)

theorem raw_unasked {b : Boundary} (laid : Lowering.empty.addViews registry index views = .ok (l, outputs))
    (asked : l.requestMain outputs = .ok l') (raw : b.IsRaw) : l'.demand.isRequired b.name = false := by
  rw [Bool.eq_false_iff]
  intro wanted
  obtain ⟨v, _, main⟩ := required_lowered laid asked wanted
  obtain ⟨unit, raw⟩ := raw
  exact raw_ne_main unit v.unitName (raw.symm.trans main)

theorem asksAlike (laid : Lowering.empty.addViews registry index views = .ok (l, outputs))
    (asked : l.requestMain outputs = .ok l₁)
    (laid' : Lowering.empty.addViews registry index' more = .ok (l', outputs'))
    (asked' : l'.requestMain outputs' = .ok l₂) (sub : outputs ⊆ outputs')
    (grows : ∀ x b, l.forest.step x = .output b → l'.forest.step x = .output b) (x : NodeId) :
    (l.forest.step x).AsksAlike l₁.demand l₂.demand := by
  intro b output
  rcases output_lowered laid output with raw | ⟨o, member, rfl⟩
  · rw [raw_unasked laid asked raw, raw_unasked laid' asked' raw]
  · have one := ((requestMain_spec asked).2 b.name).mpr (.inr ⟨o, member, b, output, rfl⟩)
    have two := ((requestMain_spec asked').2 b.name).mpr
      (.inr ⟨o, sub member, b, grows o.main b output, rfl⟩)
    rw [one, two]

end Lowering
end Viewflow.Flow
