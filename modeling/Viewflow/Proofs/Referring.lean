import Viewflow.Proofs.Failures.Compiled
import Viewflow.Proofs.Views.Drawn
import Viewflow.Proofs.Views.Scope

namespace Viewflow
open Viewflow.Flow (Demand Forest Outputs)
open Output (Dataset Leads Mark Signal)
open Output.Signal (names)

namespace Compiled

def everySignal (c : Compiled) : List Signal := c.signals ++ c.marks.flatMap Mark.everySignal

end Compiled

namespace Compilation

variable {config : Config} {registry : Registry} {spec : Spec} {us : List Unit} {forest : Forest}
  {demand : Demand} {outputs : List Outputs} {scopes : List Scope} {c : Compiled}
  {stores : List Dataset}

section

variable {index : Index} {data : List Dataset}
  (placed : arranged config registry index spec = .ok (forest, demand, outputs))
include placed

theorem outputs_length (made : units spec registry config.selection = .ok us) :
    us.length = outputs.length := by
  obtain ⟨_, fed⟩ := arranged_drawn placed
  rw [← fed.length_eq, ← views_of_units made, List.length_map]

end

structure Staged (config : Config) (spec : Spec) (c : Compiled) (us : List Unit) (forest : Forest)
    (demand : Demand) (outputs : List Outputs) (scene : Scene) (scopes : List Scope) : Prop where
  made : units spec .builtIn config.selection = .ok us
  placed : arranged config .builtIn (indexOf us) spec = .ok (forest, demand, outputs)
  shown : addUnits .builtIn (forest.assemble demand).1 ⟨(forest.assemble demand).2, [], [], []⟩
    (us.zip outputs) = .ok scene
  data : c.data = scene.data
  brought : Scopes .builtIn (forest.assemble demand).1 (us.zip outputs) scopes
  same : scopes.map (·.unit) = us
  stores : ∃ stores, c.data = (forest.assemble demand).2 ++ stores ∧
    (∀ d ∈ stores, ∃ scope ∈ scopes, ∃ s ∈ scope.selections, d = Dataset.named s.store) ∧
    ∀ scope ∈ scopes, ∀ s ∈ scope.selections, s.store ∈ Dataset.names c.data
  signals : c.signals = scene.topSignals ++ scopes.flatMap Scope.loose
  marks : c.marks = scopes.flatMap Scope.framed
  lifts : ∀ scope ∈ scopes, scope.Lifts (names c.signals)
  domains : scaleDomains .builtIn (indexOf us) us = .ok c.scaleDomains

theorem compile_staged (done : compile config .builtIn spec = .ok c) :
    ∃ us forest demand outputs scene scopes,
      Staged config spec c us forest demand outputs scene scopes := by
  obtain ⟨us, forest, demand, outputs, scene, made, placed, shown, data, marks, signals, domains⟩ :=
    compile_parts done
  obtain ⟨scopes, brought, stores, loose, framed, _, lifts⟩ := addUnits_scopes shown
  rw [List.nil_append] at loose framed
  rw [loose] at signals
  refine ⟨us, forest, demand, outputs, scene, scopes, made, placed, shown, data, brought,
    brought.units_eq.trans (List.map_fst_zip (outputs_length placed made).le), data ▸ stores, signals,
    marks.trans framed, fun scope member => (lifts scope member).weaken ?_, domains⟩
  rw [signals, Signal.names_append]
  exact List.subset_append_left _ _

end Compilation

def brushed : Spec :=
  ⟨[{ plotted "far" [] with
      selection := Keyed.empty.put "my brush"
        { type := "interval", resolve := some .single, encodings := some [.x] } },
    plotted "near" []]⟩

end Viewflow
