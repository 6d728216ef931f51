import Viewflow.Failure

namespace Viewflow

variable {α β : Type} {result : Except Failure α} {next : α → Except Failure β}
  {wrong wrong' : List Failure} {e : Failure}

def Reports (result : Except Failure α) (wrong : List Failure) : Prop :=
  match wrong with
  | [] => ∃ a, result = .ok a
  | e :: _ => result = .error e

namespace Reports

theorem ok (a : α) : Reports (.ok a : Except Failure α) [] := ⟨a, rfl⟩

theorem bind (first : Reports result wrong)
    (rest : ∀ a, result = .ok a → Reports (next a) wrong') :
    Reports (result >>= next) (wrong ++ wrong') := by
  cases wrong with
  | nil =>
    obtain ⟨a, rfl⟩ := first
    exact rest a rfl
  | cons e _ =>
    change result = .error e at first
    subst first
    exact (rfl : _ = Except.error e)

theorem then_ok (first : Reports result wrong)
    (rest : ∀ a, result = .ok a → Reports (next a) []) : Reports (result >>= next) wrong := by
  have both := first.bind rest
  rwa [List.append_nil] at both

theorem ok_iff (reports : Reports result wrong) : (∃ a, result = .ok a) ↔ wrong = [] := by
  cases wrong with
  | nil => exact ⟨fun _ => rfl, fun _ => reports⟩
  | cons e _ =>
    constructor
    · rintro ⟨a, done⟩
      rw [show result = .error e from reports] at done
      cases done
    · intro none
      cases none

theorem error_iff (reports : Reports result wrong) : result = .error e ↔ wrong.head? = some e := by
  cases wrong with
  | nil =>
    obtain ⟨a, rfl⟩ := reports
    simp
  | cons first _ =>
    rw [show result = .error first from reports]
    simp

theorem mapM {f : α → Except Failure β} {wrongOf : α → List Failure} {as : List α}
    (each : ∀ a ∈ as, Reports (f a) (wrongOf a)) : Reports (as.mapM f) (as.flatMap wrongOf) := by
  induction as with
  | nil => exact .ok []
  | cons a as ih =>
    rw [List.mapM_cons, List.flatMap_cons]
    refine (each a (List.mem_cons_self ..)).bind fun b _ => ?_
    exact (ih fun a member => each a (List.mem_cons_of_mem _ member)).then_ok fun bs _ => .ok _

-- What each step reports does not depend on what came before it.
theorem foldlM {f : β → α → Except Failure β} {wrongOf : α → List Failure} {as : List α}
    (each : ∀ a ∈ as, ∀ b, Reports (f b a) (wrongOf a)) (b : β) :
    Reports (as.foldlM f b) (as.flatMap wrongOf) := by
  induction as generalizing b with
  | nil => exact .ok b
  | cons a as ih =>
    rw [List.foldlM_cons, List.flatMap_cons]
    exact (each a (List.mem_cons_self ..) b).bind fun b' _ =>
      ih (fun a member => each a (List.mem_cons_of_mem _ member)) b'

theorem foldlM_ok {f : β → α → Except Failure β} {as : List α}
    (each : ∀ a ∈ as, ∀ b, ∃ b', f b a = .ok b') (b : β) : ∃ b', as.foldlM f b = .ok b' := by
  have reports : Reports _ (as.flatMap fun _ => []) := foldlM each b
  rwa [List.flatMap_eq_nil_iff.mpr fun _ _ => rfl] at reports

end Reports

section

variable {result' : Except Failure α} {next' : α → Except Failure β}

def Yields (result result' : Except Failure α) : Prop := ∀ a, result = .ok a → result' = .ok a

namespace Yields

theorem refl (result : Except Failure α) : Yields result result := fun _ done => done

theorem bind (first : Yields result result') (rest : ∀ a, Yields (next a) (next' a)) :
    Yields (result >>= next) (result' >>= next') := by
  intro b done
  cases result with
  | error _ => cases done
  | ok a =>
    rw [first a rfl]
    exact rest a b done

theorem then_same (first : Yields result result') : Yields (result >>= next) (result' >>= next) :=
  first.bind fun a => .refl (next a)

theorem mapM {f g : α → Except Failure β} {as : List α} (each : ∀ a ∈ as, Yields (f a) (g a)) :
    Yields (as.mapM f) (as.mapM g) := by
  induction as with
  | nil => exact .refl _
  | cons a as ih =>
    obtain ⟨first, others⟩ := List.forall_mem_cons.mp each
    rw [List.mapM_cons, List.mapM_cons]
    exact first.bind fun _ => (ih others).then_same

theorem foldlM {f g : β → α → Except Failure β} {as : List α}
    (each : ∀ a ∈ as, ∀ b, Yields (f b a) (g b a)) (b : β) : Yields (as.foldlM f b) (as.foldlM g b) := by
  induction as generalizing b with
  | nil => exact .refl _
  | cons a as ih =>
    obtain ⟨first, others⟩ := List.forall_mem_cons.mp each
    rw [List.foldlM_cons, List.foldlM_cons]
    exact (first b).bind (ih others)

end Yields
end
end Viewflow
