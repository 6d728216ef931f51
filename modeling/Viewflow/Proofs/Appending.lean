import Viewflow.Proofs.Lowering.Appended
import Viewflow.Proofs.Views.Shown
import Viewflow.Proofs.Views.Unrelated

namespace Viewflow
open Viewflow.Flow (Demand Forest Lowering Outputs Pipeline)
open Output (Dataset Mark Signal)

variable {config : Config} {registry : Registry} {index index' : Index} {spec : Spec} {w : UnitView}
  {c c' : Compiled}

namespace Compilation

variable {forest forest' : Forest} {demand demand' : Demand} {outputs outputs' : List Outputs}
  {l l' : Lowering} {mains mains' : List Flow.NodeId} {n : Nat}

def assembled (config : Config) (registry : Registry) (spec : Spec) : Except Failure (List Dataset) := do
  let us ← units spec registry config.selection
  let (forest, demand, _) ← arranged config registry (indexOf us) spec
  return (forest.assemble demand).2

theorem assembled_eq {us : List Unit} (made : units spec registry config.selection = .ok us)
    (placed : arranged config registry (indexOf us) spec = .ok (forest, demand, outputs)) :
    assembled config registry spec = .ok (forest.assemble demand).2 := by
  unfold assembled
  simp only [made, placed, Forest.bind_ok]
  rfl

theorem optimized_beside (beside : l.forest.Beside n l'.forest)
    (strands : l.forest.Strands l.demand.Spares) (asked : l.forest.Asked l.demand mains)
    (strands' : l'.forest.Strands l'.demand.Spares) (asked' : l'.forest.Asked l'.demand mains')
    (done : optimized config l = .ok forest) (done' : optimized config l' = .ok forest') :
    forest.Beside n forest' ∧ ∀ x, forest.step x = l.forest.step x := by
  unfold optimized at done done'
  cases on : config.optimize with
  | false =>
    simp only [on, Bool.false_eq_true, if_false] at done done'
    cases done
    cases done'
    exact ⟨beside, fun _ => rfl⟩
  | true =>
    simp only [on, if_true] at done done'
    obtain ⟨f, g, t, t', settles, settles', beside⟩ :=
      beside.optimize strands asked strands' asked' config.maxRounds
    obtain ⟨f', _, settled, _, _, keeps⟩ := strands.optimize config.maxRounds
    rw [settles] at settled done
    rw [settles'] at done'
    cases settled
    cases done
    cases done'
    exact ⟨beside, keeps.step⟩

theorem arranged_append (apart : ∀ v ∈ spec.views, v.data.key ≠ w.data.key)
    (each : ∀ v ∈ spec.views, Yields (Pipeline.ofView registry index v) (Pipeline.ofView registry index' v))
    (placed : arranged config registry index spec = .ok (forest, demand, outputs))
    (placed' : arranged config registry index' ⟨spec.views ++ [w]⟩ = .ok (forest', demand', outputs')) :
    (∃ o, outputs' = outputs ++ [o]) ∧ (forest.assemble demand).2 <+: (forest'.assemble demand').2 ∧
      ∀ o ∈ outputs,
        (forest'.assemble demand').1.step o.main = (forest.assemble demand).1.step o.main := by
  obtain ⟨_, tops, _⟩ := arranged_spec placed'
  obtain ⟨⟨l, _⟩, laid, done⟩ := bind_eq_ok placed
  obtain ⟨l₁, asked, done⟩ := bind_eq_ok done
  obtain ⟨_, improved, done⟩ := bind_eq_ok done
  cases done
  obtain ⟨⟨l', _⟩, laid', done⟩ := bind_eq_ok placed'
  obtain ⟨l₂, asked', done⟩ := bind_eq_ok done
  obtain ⟨_, improved', done⟩ := bind_eq_ok done
  cases done
  obtain ⟨⟨o, rfl⟩, beside⟩ := Lowering.addViews_beside laid laid' each apart
  have low : ∀ x b, l.forest.step x = .output b → x.index < l.forest.size :=
    fun x b output => Forest.known_of_output output
  have alike := Lowering.asksAlike laid asked laid' asked' (List.subset_append_left _ _) fun x b output =>
    (beside.step x (low x b output)).trans output
  obtain ⟨same, _⟩ := Lowering.requestMain_spec asked
  obtain ⟨same', _⟩ := Lowering.requestMain_spec asked'
  obtain ⟨strands, _⟩ := Lowering.lowered_spec laid asked
  obtain ⟨strands', _⟩ := Lowering.lowered_spec laid' asked'
  have beside' : l₁.forest.Beside l.forest.size l₂.forest := by rwa [same, same']
  obtain ⟨beside', steps⟩ := optimized_beside beside' strands (Lowering.asked_lowered laid asked) strands'
    (Lowering.asked_lowered laid' asked') improved improved'
  obtain ⟨written, read⟩ := beside'.assemble (fun id _ source => tops id source) fun x => by
    rw [steps, same]
    exact alike x
  refine ⟨⟨o, rfl⟩, written, fun main member => ?_⟩
  obtain ⟨b, output⟩ := Lowering.mains_of_addViews laid main member
  exact read _ (low _ b output)

theorem store_free (placed : arranged config registry index spec = .ok (forest, demand, outputs))
    (selection : String) : selection ++ "_store" ∉ Dataset.names (forest.assemble demand).2 := by
  intro there
  obtain ⟨d, member, same⟩ := List.mem_map.mp there
  exact arranged_ne_store placed member selection same

end Compilation

-- What is made of some views stands in what is made of more, in front or in the same order.
structure Compiled.Undisturbed (c c' : Compiled) (written written' : List Dataset) : Prop where
  datasets : written <+: written'
  stores : ∃ stores stores', c.data = written ++ stores ∧ c'.data = written' ++ stores' ∧
    stores <+: stores'
  signals : c.signals.Sublist c'.signals
  marks : c.marks <+: c'.marks
  predicates : c.predicates.entries <+: c'.predicates.entries
  scaleDomains : c.scaleDomains.entries <+: c'.scaleDomains.entries

open Compilation in
-- Whatever the last view asks of the selections of the others, its datasets and what it shows come behind
-- theirs, and theirs are made as they are without it.
theorem compile_append (several : 2 ≤ spec.views.length) (unrelated : w.Unrelated spec.views)
    (done : compile config .builtIn spec = .ok c)
    (done' : compile config .builtIn ⟨spec.views ++ [w]⟩ = .ok c') :
    ∃ written written', assembled config .builtIn spec = .ok written ∧
      assembled config .builtIn ⟨spec.views ++ [w]⟩ = .ok written' ∧ c.Undisturbed c' written written' := by
  obtain ⟨us, forest, demand, outputs, scene, made, placed, shown, data, marks, signals, domains⟩ :=
    compile_parts done
  obtain ⟨us', forest', demand', outputs', scene', made', placed', shown', data', marks', signals',
    domains'⟩ := compile_parts done'
  obtain ⟨u, rfl, context, own⟩ := units_append several made made'
  have extended := extends_indexOf unrelated made context own
  have known : ∀ v ∈ us, v.context.unitName ∈ spec.views.map UnitView.unitName := fun v listed =>
    List.mem_map_of_mem ((mem_views_iff made).mpr ⟨v, listed, rfl⟩)
  have apart : ∀ v ∈ us, u.context.unitName ≠ v.context.unitName := by
    intro v listed
    rw [context]
    exact (unrelated.unit _ ((mem_views_iff made).mpr ⟨v, listed, rfl⟩)).symm
  obtain ⟨⟨o, rfl⟩, datasets, steps⟩ := arranged_append unrelated.data
    (fun v view => extended.pipeline (List.mem_map_of_mem view)) placed placed'
  rw [List.zip_append (outputs_length placed made)] at shown'
  have composed : u.context.composed = true := by rw [context]
  obtain ⟨⟨stores, more, written, written'⟩, top, inner, front⟩ := addUnits_append composed
    (store_free placed) (store_free placed') (fun pair listed => steps pair.2 (List.of_mem_zip listed).2)
    shown shown'
  refine ⟨_, _, assembled_eq made placed, assembled_eq made' placed', datasets,
    ⟨stores, stores ++ more, data.trans written, data'.trans written', List.prefix_append _ _⟩,
    ?_, ?_, ?_, ?_⟩
  · rw [signals, signals', inner]
    exact top.append_right _
  · rwa [marks, marks']
  · exact predicates_prefix extended (compile_predicates done made) (compile_predicates done' made')
  · exact scaleDomains_prefix extended known apart domains domains'

def zoomed : UnitView :=
  { plotted "zoomed" [.filter (.selection (.leaf "my brush"))] with
    data := .remote "trips.csv" none
    encoding := Keyed.empty.put .x ⟨some "miles", .quantitative, none, false, none,
      some (.selection ⟨"my brush", some .x, none⟩)⟩
    selection := Keyed.empty.put "pick" { type := "single" } }

theorem compile_append_zoomed :
    ∃ c c' written written', compile {} .builtIn brushed = .ok c ∧
      compile {} .builtIn ⟨brushed.views ++ [zoomed]⟩ = .ok c' ∧ c.Undisturbed c' written written' ∧
      ["unit", "my_brush_unit"].Sublist (Signal.names c'.signals) := by
  have lifted : (compile {} .builtIn brushed).toOption.map (fun c => Signal.names c.signals) =
      some ["unit", "my_brush_unit"] := by decide +kernel
  have sound : ((Spec.mk (brushed.views ++ [zoomed])).wrong .builtIn).isEmpty = true := by decide +kernel
  have unrelated : zoomed.Unrelated brushed.views := by decide +kernel
  obtain ⟨c, done, named⟩ := Forest.exists_ok lifted
  obtain ⟨c', done'⟩ := (Compilation.compile_wrong {} .builtIn _).ok_iff.mpr (List.isEmpty_iff.mp sound)
  obtain ⟨written, written', _, _, undisturbed⟩ := compile_append (by decide) unrelated done done'
  exact ⟨c, c', written, written', done, done', undisturbed, named ▸ undisturbed.signals.map _⟩

end Viewflow
