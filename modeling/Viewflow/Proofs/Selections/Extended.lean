import Viewflow.Compile
import Viewflow.Proofs.Failures.Resolution

namespace Viewflow
open Viewflow.Flow (Pipeline)

variable {registry : Registry} {index index' : Index} {views : List String} {view name : String}
  {s : Selection} {selections : Selections}

namespace Index

-- All that is there stays: the instances of each name, the selections of each of the views, and the
-- names in front.
structure Extends (views : List String) (index index' : Index) : Prop where
  instances : ∀ name, index.instances name ≠ [] → index'.instances name = index.instances name
  inView : ∀ view ∈ views, index'.inView view = index.inView view
  keys : index.keys <+: index'.keys

theorem instances_insert (other : name ≠ s.name) :
    (index.insert view s).instances name = index.instances name := by
  unfold insert instances
  rw [Keyed.find?_put, if_neg other]

theorem filter_putEntry {κ α : Type} [DecidableEq κ] {p : α → Bool} {key : κ} {a : α} (out : p a = false)
    (entries : List (κ × List α)) :
    ((putEntry key ((findEntry key entries).getD [] ++ [a]) entries).map Prod.snd).flatten.filter p =
      (entries.map Prod.snd).flatten.filter p := by
  induction entries with
  | nil => simp [putEntry, findEntry, out]
  | cons entry entries ih =>
    obtain ⟨k, as⟩ := entry
    by_cases here : k = key
    · simp [putEntry, findEntry, here, out]
    · simp only [putEntry, findEntry, if_neg here, List.map_cons, List.flatten_cons, List.filter_append, ih]

theorem inView_insert {other : String} (apart : view ≠ other) :
    (index.insert view s).inView other = index.inView other := by
  unfold inView insert
  exact congrArg _ (filter_putEntry (p := fun i => i.view == other) (beq_false_of_ne apart) index.entries)

theorem keys_insert : index.keys <+: (index.insert view s).keys := by
  unfold insert
  rw [Keyed.keys_put]
  split
  · exact List.prefix_rfl
  · exact List.prefix_append _ _

theorem insertAll_extends (other : ∀ s ∈ selections.values, index.instances s.name = [])
    (apart : ∀ v ∈ views, v ≠ view) : index.Extends views (index.insertAll view selections) := by
  constructor
  case instances =>
    intro name there
    have others : ∀ s ∈ selections.values, name ≠ s.name := by
      rintro s listed rfl
      exact there (other s listed)
    unfold insertAll
    refine List.foldlRecOn (motive := fun grown : Index => grown.instances name = index.instances name)
      _ _ rfl ?_
    exact fun grown same s listed => (instances_insert (others s listed)).trans same
  case inView =>
    intro v listed
    unfold insertAll
    refine List.foldlRecOn (motive := fun grown : Index => grown.inView v = index.inView v) _ _ rfl ?_
    exact fun grown same s _ => (inView_insert (apart v listed).symm).trans same
  case keys =>
    unfold insertAll
    refine List.foldlRecOn (motive := fun grown : Index => index.keys <+: grown.keys) _ _
      List.prefix_rfl ?_
    exact fun grown front s _ => front.trans keys_insert

namespace Extends

variable (extended : index.Extends views index')
include extended

theorem selectionTest (name : String) : Yields (Resolution.selectionTest registry index name)
    (Resolution.selectionTest registry index' name) := by
  intro text done
  unfold Resolution.selectionTest at done ⊢
  cases here : index.instances (Text.identifier name) with
  | nil =>
    rw [here] at done
    cases done
  | cons first rest =>
    have there : index.instances (Text.identifier name) ≠ [] := by simp [here]
    rwa [extended.instances _ there]

theorem test (operand : Operand String) :
    Yields (Resolution.test registry index operand) (Resolution.test registry index' operand) :=
  Operand.renderM_yields extended.selectionTest operand

theorem domainSignal (known : view ∈ views) (placeholder : Json) :
    Yields (Resolution.domainSignal registry index view placeholder)
      (Resolution.domainSignal registry index' view placeholder) := by
  unfold Resolution.domainSignal
  refine Yields.bind (.refl _) fun d text done => ?_
  rw [extended.inView view known]
  simp only at done ⊢
  split at done
  · next own =>
    rw [if_pos own]
    exact done
  · next strange =>
    rw [if_neg strange]
    cases here : index.instances (Text.identifier d.selection) with
    | nil =>
      rw [here] at done
      cases done
    | cons first rest =>
      have there : index.instances (Text.identifier d.selection) ≠ [] := by simp [here]
      rwa [extended.instances _ there]

theorem transformStep (t : TransformDef) : Yields (Pipeline.transformStep registry index t)
    (Pipeline.transformStep registry index' t) := by
  cases t with
  | calculate _ _ => exact .refl _
  | filter filter =>
    cases filter with
    | expression _ => exact .refl _
    | selection operand => exact (extended.test operand).then_same

theorem pipeline {v : UnitView} (known : v.unitName ∈ views) :
    Yields (Pipeline.ofView registry index v) (Pipeline.ofView registry index' v) := by
  have numbers : Pipeline.identifierSteps index' v = Pipeline.identifierSteps index v := by
    unfold Pipeline.identifierSteps Pipeline.needsTupleId
    rw [extended.inView _ known]
  unfold Pipeline.ofView
  rw [numbers]
  exact (Yields.mapM fun t _ => extended.transformStep t).then_same

theorem followingScales {u : Compilation.Unit} (known : u.context.unitName ∈ views) :
    Yields (Compilation.followingScales registry index u)
      (Compilation.followingScales registry index' u) :=
  Yields.mapM fun _ _ => (extended.domainSignal known _).then_same

theorem addPredicate (predicates : Keyed String String) (name : String) :
    Yields (Compilation.addPredicate registry index predicates name)
      (Compilation.addPredicate registry index' predicates name) :=
  (extended.test (.leaf name)).then_same

end Extends
end Index
end Viewflow
