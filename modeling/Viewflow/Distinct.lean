namespace Viewflow

structure Distinct (α : Type) where
  toList : List α
  nodup : toList.Nodup
deriving DecidableEq

namespace Distinct
variable {α : Type}

def empty : Distinct α := ⟨[], by simp⟩

instance : Inhabited (Distinct α) := ⟨empty⟩

def single (a : α) : Distinct α := ⟨[a], by simp⟩

theorem append_one_nodup (as : List α) (a : α) (nodup : as.Nodup) (fresh : a ∉ as) :
    (as ++ [a]).Nodup := by
  rw [List.nodup_append]
  refine ⟨nodup, by simp, ?_⟩
  intro x hx y hy same
  rw [List.mem_singleton] at hy
  exact fresh (hy ▸ same ▸ hx)

variable [DecidableEq α]

def insert (s : Distinct α) (a : α) : Distinct α :=
  if known : a ∈ s.toList then s else ⟨s.toList ++ [a], append_one_nodup s.toList a s.nodup known⟩

theorem mem_insert (s : Distinct α) (a x : α) :
    x ∈ (s.insert a).toList ↔ x ∈ s.toList ∨ x = a := by
  unfold insert
  split
  · next known =>
    constructor
    · exact Or.inl
    · rintro (old | same)
      · exact old
      · exact same ▸ known
  · simp

def ofList (as : List α) : Distinct α := as.foldl insert empty

theorem prefix_foldl_insert (as : List α) (s : Distinct α) : s.toList <+: (as.foldl insert s).toList := by
  induction as generalizing s with
  | nil => exact List.prefix_refl _
  | cons a as ih =>
    have one : s.toList <+: (s.insert a).toList := by
      unfold insert
      split
      · exact List.prefix_refl _
      · exact List.prefix_append ..
    exact one.trans (ih (s.insert a))

theorem head?_ofList (a : α) (as : List α) : (ofList (a :: as)).toList.head? = some a := by
  obtain ⟨behind, whole⟩ := prefix_foldl_insert as (single a)
  have first : (ofList (a :: as)).toList = [a] ++ behind := whole.symm
  rw [first]
  rfl

theorem foldl_insert_replicate {s : Distinct α} {a : α} (known : a ∈ s.toList) (n : Nat) :
    (List.replicate n a).foldl insert s = s := by
  induction n with
  | zero => rfl
  | succ n ih =>
    have still : s.insert a = s := by rw [insert, dif_pos known]
    rw [List.replicate_succ, List.foldl_cons, still, ih]

theorem toList_ofList_replicate (a : α) (n : Nat) : (ofList (List.replicate (n + 1) a)).toList = [a] := by
  have listed : a ∈ (single a).toList := List.mem_singleton_self a
  exact congrArg toList (foldl_insert_replicate listed n)

def isDisjoint (a b : Distinct α) : Bool := a.toList.all fun x => !b.toList.contains x

def agrees (a b : Distinct α) : Bool :=
  a.toList.length == b.toList.length && a.toList.all fun x => b.toList.contains x

end Distinct
end Viewflow
