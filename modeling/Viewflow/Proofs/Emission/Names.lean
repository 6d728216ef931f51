import Mathlib.Data.List.Nodup
import Viewflow.Flow.Emit

namespace Viewflow.Flow.Emission
open Output (Dataset Recipe)

variable {e : Emission} {candidate : Nat → String} {name source : String} {n m : Nat} {r : Recipe}

theorem numbered_injective (name : String) : (numbered name).Injective := by
  intro n m same
  have digits : toString n = toString m := by
    simpa only [numbered, String.append_assoc, String.append_right_inj] using same
  have chars : Nat.toDigits 10 n = Nat.toDigits 10 m := by
    have lists := congrArg String.toList digits
    simpa only [Nat.toString_eq_repr, Nat.toList_repr] using lists
  calc n = Nat.ofDigitChars 10 (Nat.toDigits 10 n) 0 := Nat.ofDigitChars_ten_toDigits.symm
    _ = m := by rw [chars, Nat.ofDigitChars_ten_toDigits]

theorem taken_iff (e : Emission) (name : String) :
    e.taken name = true ↔ name ∈ Dataset.names e.datasets := List.contains_iff_mem

theorem freeNumber_cases (e : Emission) (candidate : Nat → String) (fuel n : Nat) :
    candidate (e.freeNumber candidate fuel n) ∉ Dataset.names e.datasets ∨
      ∀ i < fuel, candidate (n + i) ∈ Dataset.names e.datasets := by
  induction fuel generalizing n with
  | zero => exact .inr fun i small => absurd small (Nat.not_lt_zero i)
  | succ fuel ih =>
    unfold freeNumber
    by_cases taken : e.taken (candidate n) = true
    · rw [if_pos taken]
      rcases ih (n + 1) with free | vain
      · exact .inl free
      · refine .inr ?_
        intro i small
        cases i with
        | zero => exact (taken_iff e _).mp taken
        | succ i =>
          have known := vain i (Nat.lt_of_succ_lt_succ small)
          rwa [Nat.add_right_comm, Nat.add_assoc] at known
    · rw [if_neg taken]
      exact .inl fun known => taken ((taken_iff e _).mpr known)

theorem freeNumber_free (e : Emission) (injective : candidate.Injective) (n : Nat) :
    candidate (e.freeNumber candidate (e.datasets.length + 1) n) ∉ Dataset.names e.datasets := by
  rcases freeNumber_cases e candidate (e.datasets.length + 1) n with free | vain
  · exact free
  · exfalso
    have distinct : ((List.range (e.datasets.length + 1)).map fun i => candidate (n + i)).Nodup :=
      List.nodup_range.map fun i j same => Nat.add_left_cancel (injective same)
    have within : ((List.range (e.datasets.length + 1)).map fun i => candidate (n + i)) ⊆
        Dataset.names e.datasets := by
      intro text member
      obtain ⟨i, small, rfl⟩ := List.mem_map.mp member
      exact vain i (List.mem_range.mp small)
    have bound := distinct.length_le_of_subset within
    simp only [Dataset.names, List.length_map, List.length_range] at bound
    omega

theorem uniqueName_free (e : Emission) (name : String) :
    e.uniqueName name ∉ Dataset.names e.datasets := by
  unfold uniqueName
  split
  · exact freeNumber_free e (numbered_injective name) 1
  · next free => exact fun known => free ((taken_iff e name).mpr known)

theorem generatedNumber_free (e : Emission) :
    numbered "data" e.generatedNumber ∉ Dataset.names e.datasets :=
  freeNumber_free e (numbered_injective "data") e.counter

-- A recipe that repeats a dataset gives that dataset's name; any other is written out under a name
-- that is free.
theorem materialize_cases (e : Emission) (r : Recipe) (preferred : Option String) :
    (∃ source, r.alias? = some source ∧ e.materialize r preferred = (source, e)) ∨
      r.alias? = none ∧ ∃ name e', e.materialize r preferred = (name, e') ∧
        name ∉ Dataset.names e.datasets ∧ e'.datasets = e.datasets ++ [⟨name, r⟩] ∧
        e'.bound = e.bound := by
  cases repeated : r.alias? with
  | some source => exact .inl ⟨source, rfl, by simp only [materialize, repeated]⟩
  | none =>
    refine .inr ⟨rfl, ?_⟩
    cases preferred with
    | some name =>
      refine ⟨e.uniqueName name, e.emit (e.uniqueName name) r, ?_, uniqueName_free e name, rfl, rfl⟩
      simp only [materialize, repeated]
    | none =>
      refine ⟨numbered "data" e.generatedNumber, { e.emit (numbered "data" e.generatedNumber) r with
        counter := e.generatedNumber + 1 }, ?_, generatedNumber_free e, rfl, rfl⟩
      simp only [materialize, repeated]

end Viewflow.Flow.Emission
