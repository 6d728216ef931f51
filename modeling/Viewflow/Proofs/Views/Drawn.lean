import Viewflow.Proofs.Compiled
import Viewflow.Proofs.Emission.Fed
import Viewflow.Proofs.Emission.Named
import Viewflow.Proofs.Lowering.Tips

namespace Viewflow
open Viewflow.Flow (Coercion Demand Forest Lowering NamedStep NodeId Outputs)
open Output (Dataset Leads Origin Recipe)

theorem DataRef.eq_named_of_key {data : DataRef} {name : String}
    (same : data.key = (DataRef.named name).key) : data = .named name := by
  have chars := congrArg String.toList same
  cases data with
  | remote address format => simp [key] at chars
  | inline values => simp [key] at chars
  | named other =>
    have texts : other = name := by simpa [key] using same
    rw [texts]

namespace Flow

theorem sourceRecipe_derived {data : DataRef} {name : String}
    (derived : (sourceRecipe data).origin = .derived name) : data = .named name := by
  cases data with
  | named other =>
    cases derived
    rfl
  | remote _ _ => cases derived
  | inline _ => cases derived

theorem origin_viewRecipe (loaded first : Bool) (data : DataRef) (fields : Keyed String Coercion)
    (own later : List NamedStep) :
    (viewRecipe loaded first data fields own later).origin = (sourceRecipe data).origin := by
  unfold viewRecipe
  split <;> rfl

theorem Forest.origin_described (f : Forest) (id : NodeId) :
    (f.described id).origin = (rootRecipe (f.step (f.top id))).origin := by
  unfold described base
  cases (f.path id).find? f.loads with
  | none => rfl
  | some x => cases step : f.step x <;> simp [step, loadedWith, withCoercions, Recipe.followedBy]

end Flow

namespace Compilation

variable {config : Config} {registry : Registry} {index : Index} {spec : Spec} {forest : Forest}
  {demand : Demand} {outputs : List Outputs} {v : UnitView} {loaded : Bool} {r : Recipe} {name : String}

theorem Follows.named (follows : Follows config registry index spec v loaded r)
    (elsewhere : r.origin = .derived name) : v.data = .named name := by
  obtain ⟨first, own, encoded, fields, brought, _, _, _, _, rfl⟩ := follows
  rw [Flow.origin_viewRecipe] at elsewhere
  have same : first.data.key = v.data.key := by
    unfold Lowering.firstWith at brought
    simpa using List.find?_some brought
  rw [Flow.sourceRecipe_derived elsewhere] at same
  exact DataRef.eq_named_of_key same.symm

theorem arranged_asked (done : arranged config registry index spec = .ok (forest, demand, outputs)) :
    forest.Asked demand (outputs.map (·.main)) := by
  obtain ⟨⟨l, outputs'⟩, laid, done⟩ := bind_eq_ok done
  obtain ⟨l', requested, done⟩ := bind_eq_ok done
  obtain ⟨g, improved, done⟩ := bind_eq_ok done
  cases done
  have asked := Lowering.asked_lowered laid requested
  obtain ⟨strands, _, _⟩ := Lowering.lowered_spec laid requested
  unfold optimized at improved
  cases on : config.optimize with
  | false =>
    simp only [on, Bool.false_eq_true, if_false] at improved
    cases improved
    exact asked
  | true =>
    simp only [on, if_true] at improved
    obtain ⟨h, tally, settles, _⟩ := strands.optimize config.maxRounds
    rw [settles] at improved
    cases improved
    exact strands.valid.asked_optimize asked settles

theorem arranged_ne_store
    (done : arranged config registry index spec = .ok (forest, demand, outputs)) {d : Dataset}
    (member : d ∈ (forest.assemble demand).2) (selection : String) : d.name ≠ selection ++ "_store" := by
  have given := forest.assemble_given demand d member
  obtain ⟨⟨l, outputs'⟩, laid, done⟩ := bind_eq_ok done
  obtain ⟨l', requested, done⟩ := bind_eq_ok done
  obtain ⟨g, improved, done⟩ := bind_eq_ok done
  cases done
  exact given.ne_store (fun _ wanted => Lowering.required_lowered laid requested wanted) selection

theorem arranged_drawn (done : arranged config registry index spec = .ok (forest, demand, outputs)) :
    (∀ d ∈ (forest.assemble demand).2, ∃ o ∈ outputs, ∃ main,
      (forest.assemble demand).1.step o.main = .output main ∧
        Leads (forest.assemble demand).2 main.source d.name) ∧
    List.Forall₂ (fun v o => ∃ main, (forest.assemble demand).1.step o.main = .output main ∧
      (main.source ∈ Dataset.names (forest.assemble demand).2 ∨ v.data = .named main.source))
      spec.views outputs := by
  obtain ⟨valid, sources, _, every⟩ := arranged_spec done
  obtain ⟨used, fed⟩ := valid.assemble_used (fun id _ source => sources id source) (arranged_asked done)
  refine ⟨?_, every.imp ?_⟩
  · intro d member
    obtain ⟨id, listed, main, step, leads⟩ := used d member
    obtain ⟨o, output, rfl⟩ := List.mem_map.mp listed
    exact ⟨o, output, main, step, leads⟩
  · rintro v o ⟨delivers, follows⟩
    obtain ⟨b, output, required⟩ := delivers.wanted
    have wanted : forest.wanted demand o.main = true := by simp [Forest.wanted, output, required]
    obtain ⟨main, step, from_⟩ := fed o.main delivers.attached wanted
    refine ⟨main, step, from_.imp_right fun elsewhere => follows.named ?_⟩
    rw [Forest.origin_described]
    exact elsewhere

end Compilation
end Viewflow
