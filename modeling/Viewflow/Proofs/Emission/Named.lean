import Viewflow.Proofs.Emission.Written
import Viewflow.Proofs.Lowering.Requests

namespace Viewflow.Flow
open Emission (numbered)

variable {demand : Demand} {name : String}

namespace Lowering

variable {l l' : Lowering} {outputs : List Outputs} {registry : Registry} {index : Index}
  {views : List UnitView}

theorem required_lowered (laid : Lowering.empty.addViews registry index views = .ok (l, outputs))
    (asked : l.requestMain outputs = .ok l') (wanted : l'.demand.isRequired name = true) :
    ∃ v ∈ views, name = v.unitName ++ "_main" := by
  obtain ⟨_, _, _, quiet, _⟩ := addViews_spec (.empty _) .empty laid
  obtain ⟨strands, _, every⟩ := lowered_spec laid asked
  obtain ⟨forest, required⟩ := requestMain_spec asked
  rcases (required name).mp wanted with before | ⟨o, member, b, output, rfl⟩
  · rw [quiet] at before
    cases before
  · obtain ⟨v, listed, p, _, laid, _⟩ := forall₂_exists every member
    obtain ⟨w, _, route⟩ := laid.route
    unfold Pipeline.steps at route
    rw [← List.cons_append] at route
    rw [← forest, strands.valid.step_of_route route] at output
    cases output
    exact ⟨v, listed, rfl⟩

end Lowering

theorem Emission.numbered_ne_store (name selection : String) (n : Nat) :
    numbered name n ≠ selection ++ "_store" := by
  intro same
  have last := congrArg (fun s : String => s.toList.getLast?) same
  have digits : (toString n).toList = Nat.toDigits 10 n := by
    rw [Nat.toString_eq_repr, Nat.toList_repr]
  simp only [numbered, String.toList_append, digits] at last
  rw [List.getLast?_append_of_ne_nil _ Nat.toDigits_ne_nil] at last
  have digit := Nat.isDigit_of_mem_toDigits (by decide) (by decide)
    (List.mem_of_getLast? (last.trans (by simp) : _ = some 'e'))
  exact absurd digit (by decide)

theorem Emission.Given.ne_store {views : List UnitView} (given : Given demand name)
    (main : ∀ name, demand.isRequired name = true → ∃ v ∈ views, name = v.unitName ++ "_main")
    (selection : String) : name ≠ selection ++ "_store" := by
  cases given with
  | own required =>
    obtain ⟨v, _, rfl⟩ := main name required
    intro same
    have last := congrArg (fun s : String => s.toList.getLast?) same
    simp at last
  | again n _ => exact numbered_ne_store _ selection n
  | fork n => exact numbered_ne_store _ selection n

end Viewflow.Flow
