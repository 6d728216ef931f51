import Mathlib.Data.List.Forall2
import Mathlib.Data.List.Nodup
import Mathlib.Data.List.Perm.Subperm
import Viewflow.Flow.Step
import Viewflow.Proofs.Entries

namespace Viewflow

namespace Binary64

variable {a b c : Binary64}

theorem same_refl (a : Binary64) : a.same a = true := by simp [same]

theorem same_symm (equal : a.same b = true) : b.same a = true := by
  simp only [same, Bool.and_eq_true, Bool.or_eq_true, beq_iff_eq] at equal ⊢
  grind

theorem same_trans (one : a.same b = true) (two : b.same c = true) : a.same c = true := by
  simp only [same, Bool.and_eq_true, Bool.or_eq_true, beq_iff_eq] at one two ⊢
  grind

end Binary64

namespace Json

theorem Number.same_refl (a : Number) : a.same a = true := by
  cases a with
  | integer _ => simp [Number.same]
  | floating a => exact a.same_refl

theorem Number.same_symm {a b : Number} (equal : a.same b = true) : b.same a = true := by
  cases a <;> cases b <;> simp only [Number.same, reduceCtorEq, beq_iff_eq] at equal ⊢
  · exact equal.symm
  · exact Binary64.same_symm equal

theorem Number.same_trans {a b c : Number} (one : a.same b = true) (two : b.same c = true) :
    a.same c = true := by
  cases a <;> cases b <;> cases c <;>
    simp only [Number.same, reduceCtorEq, beq_iff_eq] at one two ⊢
  · exact one.trans two
  · exact Binary64.same_trans one two

mutual

theorem same_refl (a : Json) : a.same a = true := by
  cases a with
  | null => rfl
  | bool _ => simp [same]
  | num n => exact n.same_refl
  | str _ => simp [same]
  | arr items => exact sameItems_refl items
  | obj fields => exact sameFields_refl fields

theorem sameItems_refl (as : List Json) : sameItems as as = true := by
  cases as with
  | nil => rfl
  | cons a as =>
    unfold sameItems
    rw [Bool.and_eq_true]
    exact ⟨same_refl a, sameItems_refl as⟩

theorem sameFields_refl (as : List (String × Json)) : sameFields as as = true := by
  cases as with
  | nil => rfl
  | cons entry as =>
    obtain ⟨key, a⟩ := entry
    unfold sameFields
    rw [Bool.and_eq_true, Bool.and_eq_true, beq_iff_eq]
    exact ⟨⟨rfl, same_refl a⟩, sameFields_refl as⟩

end

mutual

theorem same_symm (a b : Json) (equal : a.same b = true) : b.same a = true := by
  cases a <;> cases b <;> simp only [same, reduceCtorEq, beq_iff_eq] at equal ⊢
  · exact equal.symm
  · exact Number.same_symm equal
  · exact equal.symm
  · exact sameItems_symm _ _ equal
  · exact sameFields_symm _ _ equal

theorem sameItems_symm (as bs : List Json) (equal : sameItems as bs = true) :
    sameItems bs as = true := by
  cases as <;> cases bs <;> simp only [sameItems, reduceCtorEq, Bool.and_eq_true] at equal ⊢
  exact ⟨same_symm _ _ equal.1, sameItems_symm _ _ equal.2⟩

theorem sameFields_symm (as bs : List (String × Json)) (equal : sameFields as bs = true) :
    sameFields bs as = true := by
  cases as <;> cases bs <;>
    simp only [sameFields, reduceCtorEq, Bool.and_eq_true, beq_iff_eq] at equal ⊢
  exact ⟨⟨equal.1.1.symm, same_symm _ _ equal.1.2⟩, sameFields_symm _ _ equal.2⟩

end

mutual

theorem same_trans (a b c : Json) (one : a.same b = true) (two : b.same c = true) :
    a.same c = true := by
  cases a <;> cases b <;> simp only [same, reduceCtorEq, beq_iff_eq] at one <;>
    cases c <;> simp only [same, reduceCtorEq, beq_iff_eq] at two ⊢
  · exact one.trans two
  · exact Number.same_trans one two
  · exact one.trans two
  · exact sameItems_trans _ _ _ one two
  · exact sameFields_trans _ _ _ one two
termination_by structural a

theorem sameItems_trans (as bs cs : List Json) (one : sameItems as bs = true)
    (two : sameItems bs cs = true) : sameItems as cs = true := by
  cases as <;> cases bs <;> simp only [sameItems, reduceCtorEq, Bool.and_eq_true] at one <;>
    cases cs <;> simp only [sameItems, reduceCtorEq, Bool.and_eq_true] at two ⊢
  exact ⟨same_trans _ _ _ one.1 two.1, sameItems_trans _ _ _ one.2 two.2⟩
termination_by structural as

theorem sameFields_trans (as bs cs : List (String × Json)) (one : sameFields as bs = true)
    (two : sameFields bs cs = true) : sameFields as cs = true := by
  cases as <;> cases bs <;>
    simp only [sameFields, reduceCtorEq, Bool.and_eq_true, beq_iff_eq] at one <;>
    cases cs <;> simp only [sameFields, reduceCtorEq, Bool.and_eq_true, beq_iff_eq] at two ⊢
  exact ⟨⟨one.1.1.trans two.1.1, same_trans _ _ _ one.1.2 two.1.2⟩,
    sameFields_trans _ _ _ one.2 two.2⟩
termination_by structural as

end

end Json

namespace Keyed

variable {κ ν : Type} [DecidableEq κ] {a b : Keyed κ ν}

theorem agrees_iff [BEq ν] [LawfulBEq ν] : a.agrees b = true ↔ a.entries.Perm b.entries := by
  simp only [agrees, Bool.and_eq_true, beq_iff_eq, List.all_eq_true, find?_eq_some_iff]
  constructor
  · rintro ⟨length, within⟩
    have distinct := List.Nodup.of_map Prod.fst a.nodup
    exact (List.subperm_of_subset distinct within).perm_of_length_le (Nat.le_of_eq length.symm)
  · exact fun perm => ⟨perm.length_eq, fun entry member => perm.subset member⟩

end Keyed

namespace Distinct

variable {α : Type} [DecidableEq α] {a b : Distinct α}

theorem agrees_iff : a.agrees b = true ↔ a.toList.Perm b.toList := by
  simp only [agrees, Bool.and_eq_true, beq_iff_eq, List.all_eq_true, List.contains_iff_mem]
  constructor
  · rintro ⟨length, within⟩
    exact (List.subperm_of_subset a.nodup within).perm_of_length_le (Nat.le_of_eq length.symm)
  · exact fun perm => ⟨perm.length_eq, fun x member => perm.subset member⟩

end Distinct

namespace DataRef

variable {a b c : DataRef}

theorem same_refl (a : DataRef) : a.same a = true := by
  cases a with
  | remote _ _ => simp [same]
  | inline values => exact Json.sameItems_refl values
  | named _ => simp [same]

theorem same_symm (equal : a.same b = true) : b.same a = true := by
  cases a <;> cases b <;> simp only [same, reduceCtorEq, Bool.and_eq_true, beq_iff_eq] at equal ⊢
  · exact ⟨equal.1.symm, equal.2.symm⟩
  · exact Json.sameItems_symm _ _ equal
  · exact equal.symm

theorem same_trans (one : a.same b = true) (two : b.same c = true) : a.same c = true := by
  cases a <;> cases b <;> simp only [same, reduceCtorEq, Bool.and_eq_true, beq_iff_eq] at one <;>
    cases c <;> simp only [same, reduceCtorEq, Bool.and_eq_true, beq_iff_eq] at two ⊢
  · exact ⟨one.1.trans two.1, one.2.trans two.2⟩
  · exact Json.sameItems_trans _ _ _ one two
  · exact one.trans two

end DataRef

namespace Flow.Step

variable {a b c : Step}

theorem same_refl (a : Step) : a.same a = true := by
  cases a with
  | source data => exact data.same_refl
  | parse fields => exact Keyed.agrees_iff.mpr (.refl _)
  | filter expression fields =>
    simp only [same, beq_self_eq_true, Bool.true_and]
    exact Distinct.agrees_iff.mpr (.refl _)
  | _ => simp [same]

theorem same_symm (equal : a.same b = true) : b.same a = true := by
  cases a <;> cases b <;>
    simp only [same, reduceCtorEq, Bool.and_eq_true, beq_iff_eq, Keyed.agrees_iff,
      Distinct.agrees_iff] at equal ⊢
  case source.source => exact DataRef.same_symm equal
  case parse.parse => exact equal.symm
  case filter.filter => exact ⟨equal.1.symm, equal.2.symm⟩
  all_goals grind

theorem same_trans (one : a.same b = true) (two : b.same c = true) : a.same c = true := by
  cases a <;> cases b <;>
    simp only [same, reduceCtorEq, Bool.and_eq_true, beq_iff_eq, Keyed.agrees_iff,
      Distinct.agrees_iff] at one <;> cases c <;>
    simp only [same, reduceCtorEq, Bool.and_eq_true, beq_iff_eq, Keyed.agrees_iff,
      Distinct.agrees_iff] at two ⊢
  case source.source.source => exact DataRef.same_trans one two
  case parse.parse.parse => exact one.trans two
  case filter.filter.filter => exact ⟨one.1.trans two.1, one.2.trans two.2⟩
  all_goals grind

theorem not_parse_of_source (source : a.isSource = true) : a.isParse = false := by
  cases a with
  | source _ => rfl
  | _ => cases source

theorem not_source_of_parse (parse : a.isParse = true) : a.isSource = false := by
  cases a with
  | parse _ => rfl
  | _ => cases parse

theorem isParse_of_same (equal : a.same b = true) : a.isParse = b.isParse := by
  cases a <;> cases b <;> simp only [same, reduceCtorEq] at equal <;> rfl

theorem isOutput_of_same (equal : a.same b = true) : a.isOutput = b.isOutput := by
  cases a <;> cases b <;> simp only [same, reduceCtorEq] at equal <;> rfl

theorem transforms_of_same (equal : a.same b = true) (other : a.isParse = false) :
    a.transforms = b.transforms := by
  cases a <;> cases b <;>
    simp only [same, reduceCtorEq, Bool.and_eq_true, beq_iff_eq] at equal <;>
    simp_all [transforms, isParse]

def Alike (as bs : List Step) : Prop := List.Forall₂ (fun a b => a.same b = true) as bs

namespace Alike

variable {as bs cs : List Step}

theorem refl (as : List Step) : Alike as as := List.forall₂_same.mpr fun a _ => a.same_refl

theorem trans (one : Alike as bs) (two : Alike bs cs) : Alike as cs := by
  induction one generalizing cs with
  | nil => exact two
  | cons equal _ ih =>
    cases two with
    | cons equal' rest => exact .cons (Step.same_trans equal equal') (ih rest)

theorem filter (alike : Alike as bs) (seen : Step → Bool)
    (respects : ∀ a b, a.same b = true → seen a = seen b) :
    Alike (as.filter seen) (bs.filter seen) := by
  induction alike with
  | nil => exact .nil
  | @cons a b as bs equal _ ih =>
    rw [List.filter_cons, List.filter_cons, respects a b equal]
    split
    · exact .cons equal ih
    · exact ih

theorem transforms (alike : Alike as bs) (others : ∀ a ∈ as, a.isParse = false) :
    as.flatMap Step.transforms = bs.flatMap Step.transforms := by
  induction alike with
  | nil => rfl
  | cons equal _ ih =>
    rw [List.flatMap_cons, List.flatMap_cons,
      transforms_of_same equal (others _ (List.mem_cons_self ..)),
      ih fun a member => others a (List.mem_cons_of_mem _ member)]

end Alike
end Flow.Step
end Viewflow
