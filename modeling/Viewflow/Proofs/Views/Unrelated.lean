import Viewflow.Proofs.Driving
import Viewflow.Proofs.Selections.Extended

namespace Viewflow
open Text (identifier)

-- A view that shares neither its name nor its data with any of the others, nor the name of a selection.
structure UnitView.Unrelated (w : UnitView) (views : List UnitView) : Prop where
  unit : ∀ v ∈ views, v.unitName ≠ w.unitName
  data : ∀ v ∈ views, v.data.key ≠ w.data.key
  selections : ∀ v ∈ views, ∀ e ∈ v.selection.entries, ∀ e' ∈ w.selection.entries,
    identifier e.1 ≠ identifier e'.1

instance (w : UnitView) (views : List UnitView) : Decidable (w.Unrelated views) :=
  decidable_of_iff
    ((∀ v ∈ views, v.unitName ≠ w.unitName) ∧ (∀ v ∈ views, v.data.key ≠ w.data.key) ∧
      ∀ v ∈ views, ∀ e ∈ v.selection.entries, ∀ e' ∈ w.selection.entries,
        identifier e.1 ≠ identifier e'.1)
    ⟨fun ⟨unit, data, selections⟩ => ⟨unit, data, selections⟩,
      fun unrelated => ⟨unrelated.unit, unrelated.data, unrelated.selections⟩⟩

namespace UnitContext

theorem underscore_not_mem_name (c : Channel) : '_' ∉ c.name.toList := by cases c <;> decide

-- No name of a channel has an underscore in it, so that the last one ends the name of the unit.
theorem scaleName_ne {ctx ctx' : UnitContext} (apart : ctx.unitName ≠ ctx'.unitName) (c c' : Channel) :
    ctx.scaleName c ≠ ctx'.scaleName c' := by
  intro same
  have chars : ctx.unitName.toList ++ '_' :: c.name.toList =
      ctx'.unitName.toList ++ '_' :: c'.name.toList := by
    simpa [scaleName, nameOf] using congrArg String.toList same
  rcases List.append_eq_append_iff.mp chars with ⟨mid, whole, rest⟩ | ⟨mid, whole, rest⟩
  · cases mid with
    | nil => exact apart (String.toList_injective (by simpa using whole.symm))
    | cons _ mid =>
      obtain ⟨_, inside⟩ := List.cons.inj rest
      exact underscore_not_mem_name c (inside ▸ by simp)
  · cases mid with
    | nil => exact apart (String.toList_injective (by simpa using whole))
    | cons _ mid =>
      obtain ⟨_, inside⟩ := List.cons.inj rest
      exact underscore_not_mem_name c' (inside ▸ by simp)

end UnitContext

namespace Compilation

variable {registry : Registry} {config : Config} {spec : Spec} {w : UnitView} {u : Unit}
  {us us' : List Unit} {index : Index} {views names : List String}
  {m m' : Keyed String String} {entries : List (String × String)}

theorem mapM_append_one {α β : Type} {f : α → Except Failure β} {as : List α} {a : α} {bs : List β}
    (done : (as ++ [a]).mapM f = .ok bs) :
    ∃ first b, as.mapM f = .ok first ∧ f a = .ok b ∧ bs = first ++ [b] := by
  rw [List.mapM_append] at done
  obtain ⟨first, others, done⟩ := bind_eq_ok done
  obtain ⟨last, one, done⟩ := bind_eq_ok done
  cases done
  rw [List.mapM_cons] at one
  obtain ⟨b, own, one⟩ := bind_eq_ok one
  cases one
  exact ⟨first, b, others, own, rfl⟩

theorem units_append (several : 2 ≤ spec.views.length) (made : units spec registry config.selection = .ok us)
    (made' : units ⟨spec.views ++ [w]⟩ registry config.selection = .ok us') :
    ∃ u, us' = us ++ [u] ∧ u.context = ⟨w, true⟩ ∧
      Selections.ofView u.context registry config.selection = .ok u.selections := by
  have composed : spec.isComposed = true := decide_eq_true several
  have composed' : (Spec.mk (spec.views ++ [w])).isComposed = true :=
    decide_eq_true (by rw [List.length_append]; omega)
  have contexts : (Spec.mk (spec.views ++ [w])).contexts = spec.contexts ++ [⟨w, true⟩] := by
    unfold Spec.contexts
    rw [composed, composed', List.map_append]
    rfl
  unfold units at made made'
  rw [contexts] at made'
  obtain ⟨first, u, others, own, rfl⟩ := mapM_append_one made'
  rw [made] at others
  cases others
  obtain ⟨selections, completed, done⟩ := bind_eq_ok own
  cases done
  exact ⟨_, rfl, rfl, completed⟩

theorem extends_indexOf (unrelated : w.Unrelated spec.views) (made : units spec registry config.selection = .ok us)
    (context : u.context = ⟨w, true⟩)
    (own : Selections.ofView u.context registry config.selection = .ok u.selections) :
    (indexOf us).Extends (spec.views.map UnitView.unitName) (indexOf (us ++ [u])) := by
  have grown : indexOf (us ++ [u]) = (indexOf us).insertAll u.context.unitName u.selections :=
    List.foldl_append
  rw [grown, context]
  refine Index.insertAll_extends ?_ ?_
  · intro s listed
    refine (indexOf_serves made).instances_eq_nil fun declared => ?_
    have key : s.name ∈ u.selections.keys :=
      Keyed.mem_keys_iff.mpr ⟨s, (Selections.mem_ofView own listed).1⟩
    obtain ⟨e', declared', named'⟩ := (Selections.ofView_keys own).mp key
    rw [context] at declared'
    obtain ⟨v, view, declared⟩ := List.mem_flatMap.mp declared
    obtain ⟨_, key, named⟩ := List.mem_map.mp declared
    obtain ⟨e, declared, rfl⟩ := List.mem_map.mp key
    exact unrelated.selections v view e declared e' declared' (named.trans named'.symm)
  · intro name listed
    obtain ⟨v, view, rfl⟩ := List.mem_map.mp listed
    exact unrelated.unit v view

theorem addPredicate_spec (done : names.foldlM (addPredicate registry index) m = .ok m') :
    ∃ entries, m' = m.putAll entries ∧ entries.map Prod.fst = names := by
  induction names generalizing m with
  | nil =>
    cases done
    exact ⟨[], rfl, rfl⟩
  | cons name names ih =>
    rw [List.foldlM_cons] at done
    obtain ⟨middle, first, rest⟩ := bind_eq_ok done
    obtain ⟨text, _, first⟩ := bind_eq_ok first
    cases first
    obtain ⟨entries, rfl, rfl⟩ := ih rest
    exact ⟨(name, text) :: entries, rfl, rfl⟩

theorem predicates_prefix {index' : Index} (extended : index.Extends views index')
    (done : predicates registry index = .ok m) (done' : predicates registry index' = .ok m') :
    m.entries <+: m'.entries := by
  obtain ⟨more, keys⟩ := extended.keys
  have apart : (index.keys ++ more).Nodup := keys ▸ index'.nodup
  unfold predicates at done'
  rw [← keys, List.foldlM_append] at done'
  obtain ⟨middle, front, done'⟩ := bind_eq_ok done'
  have same : ∀ name ∈ index.keys, ∀ m, Yields (addPredicate registry index m name)
      (addPredicate registry index' m name) := fun name _ m => extended.addPredicate m name
  rw [Yields.foldlM same _ m done] at front
  cases front
  obtain ⟨entries, rfl, named⟩ := addPredicate_spec done
  obtain ⟨entries', rfl, named'⟩ := addPredicate_spec done'
  refine Keyed.prefix_putAll List.prefix_rfl fun e listed there => ?_
  have first : e.1 ∈ index.keys := named ▸ Keyed.keys_ofList_subset there
  exact (List.nodup_append'.mp apart).2.2 first (named' ▸ List.mem_map_of_mem listed)

theorem contribution_names (done : contribution registry index u = .ok entries) :
    ∀ e ∈ entries, ∃ c, e.1 = u.context.scaleName c := by
  obtain ⟨following, found, done⟩ := bind_eq_ok done
  cases done
  intro e listed
  rcases List.mem_append.mp listed with driven | follows
  · obtain ⟨s, _, driven⟩ := List.mem_flatMap.mp driven
    obtain ⟨c, _, rfl⟩ := List.mem_map.mp driven
    exact ⟨c, rfl⟩
  · obtain ⟨said, _, said'⟩ := forall₂_exists (forall₂_of_mapM found) follows
    obtain ⟨signal, _, done⟩ := bind_eq_ok said'
    cases done
    exact ⟨said.1, rfl⟩

theorem scaleDomains_prefix {index' : Index} (extended : index.Extends views index')
    (known : ∀ u' ∈ us, u'.context.unitName ∈ views)
    (apart : ∀ u' ∈ us, u.context.unitName ≠ u'.context.unitName)
    (done : scaleDomains registry index us = .ok m)
    (done' : scaleDomains registry index' (us ++ [u]) = .ok m') : m.entries <+: m'.entries := by
  obtain ⟨entries, all, rfl⟩ := scaleDomains_spec done
  obtain ⟨entries', all', rfl⟩ := scaleDomains_spec done'
  obtain ⟨each, said, flat⟩ := bind_eq_ok all
  cases flat
  obtain ⟨each', said', flat⟩ := bind_eq_ok all'
  cases flat
  obtain ⟨first, own, others, last, rfl⟩ := mapM_append_one said'
  have same : ∀ u' ∈ us, Yields (contribution registry index u') (contribution registry index' u') :=
    fun u' listed => (extended.followingScales (known u' listed)).then_same
  rw [Yields.mapM same each said] at others
  cases others
  rw [List.flatten_append, List.flatten_singleton]
  refine Keyed.prefix_ofList own fun e listed there => ?_
  obtain ⟨c, name⟩ := contribution_names last e listed
  obtain ⟨e', listed', same⟩ := List.mem_map.mp there
  obtain ⟨theirs, each, listed'⟩ := List.mem_flatten.mp listed'
  obtain ⟨u', unit, said⟩ := forall₂_exists (forall₂_of_mapM said) each
  obtain ⟨c', name'⟩ := contribution_names said e' listed'
  exact UnitContext.scaleName_ne (apart u' unit) c c' (name.symm.trans (same.symm.trans name'))

end Compilation
end Viewflow
