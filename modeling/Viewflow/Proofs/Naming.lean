import Viewflow.Proofs.Passes.Brought
import Viewflow.Proofs.Views.Drawn

namespace Viewflow
open Viewflow.Flow (Demand Forest Lowering Outputs)
open Viewflow.Flow.Emission (Given)
open Output (Dataset)

variable {config : Config} {registry : Registry} {index : Index} {demand : Demand} {f : Forest}
  {views : List UnitView} {outputs : List Outputs} {l : Lowering}

open Compilation in
theorem compile_data_names :
    (∀ (f : Forest) (demand : Demand), (Dataset.names (f.assemble demand).2).Nodup ∧
      ∀ earlier d later source, (f.assemble demand).2 = earlier ++ d :: later →
        d.recipe.origin = .derived source → source ∈ Dataset.names earlier ∨ f.Imports source) ∧
    ∀ (config : Config) (registry : Registry) (spec : Spec) (c : Compiled),
      compile config registry spec = .ok c →
      ∃ us forest demand outputs stores, units spec registry config.selection = .ok us ∧
        arranged config registry (indexOf us) spec = .ok (forest, demand, outputs) ∧
        c.data = (forest.assemble demand).2 ++ stores ∧ (Dataset.names c.data).Nodup := by
  refine ⟨?_, ?_⟩
  · intro f demand
    have written := f.assemble_written demand
    refine ⟨written.nodup, ?_⟩
    intro earlier d later source split derived
    exact written.follows split source (Output.Origin.source?_eq_some_iff.mpr derived)
  · intro config registry spec c done
    obtain ⟨us, forest, demand, outputs, scene, made, placed, shown, data, _, _⟩ := compile_parts done
    obtain ⟨_, _, _, extended⟩ := addUnits_spec shown
    obtain ⟨stores, behind⟩ := extended.more
    refine ⟨us, forest, demand, outputs, stores, made, placed, data.trans behind, ?_⟩
    rw [data]
    exact extended.distinct (forest.assemble_written demand).nodup

def retold : Forest :=
  let (f, source) := Forest.empty.addRoot "source" (.source (.named "cars"))
  let (f, filter) := f.addUnder source "filter" (.filter "datum.year" .empty)
  let (f, main) := f.addUnder filter "main" (.output (.fresh "a" .main))
  let (f, filter) := f.addUnder main "filter" (.filter "datum.miles" .empty)
  (f.addUnder filter "main" (.output (.fresh "a" .main))).1

theorem compile_data_names_repeated :
    (∃ d, (retold.assemble (Demand.empty.request "a")).2 =
        [⟨"a", ⟨.derived "cars", none, [.filter "datum.year"]⟩⟩] ++ d :: [] ∧ d.name = "a_1" ∧
        ("a" ∈ ["a"] ∨ retold.Imports "a")) ∧
      ∃ c, compile {} .builtIn plottedTwice = .ok c ∧ (Dataset.names c.data).Nodup := by
  have written : (compile {} .builtIn plottedTwice).toOption.map (·.data.length) = some 2 := by
    decide +kernel
  obtain ⟨c, done, _⟩ := Forest.exists_ok written
  obtain ⟨_, _, _, _, _, _, _, _, distinct⟩ := compile_data_names.2 _ _ _ _ done
  refine ⟨⟨⟨"a_1", ⟨.derived "a", none, [.filter "datum.miles"]⟩⟩, rfl, rfl, ?_⟩, c, done, distinct⟩
  exact (compile_data_names.1 retold (Demand.empty.request "a")).2 _ _ [] "a" rfl rfl

namespace Flow.Lowering

def Builds (l : Lowering) (f : Forest) : Prop :=
  f = l.forest ∨ ∃ demand bound tally, l.forest.optimize demand bound = .ok (f, tally)

theorem imports_named (laid : Lowering.empty.addViews registry index views = .ok (l, outputs))
    (built : l.Builds f) {name : String} (imports : f.Imports name) :
    ∃ v ∈ views, v.data = .named name := by
  obtain ⟨strands, sourced, _⟩ := addViews_spec (.empty _) .empty laid
  have brings : l.forest.Brings (.named name) := by
    rcases built with rfl | ⟨demand, bound, tally, done⟩
    · exact imports
    · exact strands.valid.brings_optimize done imports
  obtain ⟨r, root, source⟩ := brings
  obtain ⟨v, listed, same⟩ := sourced.roots r root
  rw [source] at same
  exact ⟨v, listed, (Step.source.inj same).symm⟩

end Flow.Lowering

-- What the views name stays what it is, whatever is written out beside it.
theorem assemble_apart (laid : Lowering.empty.addViews registry index views = .ok (l, outputs))
    (built : l.Builds f) (demand : Demand)
    (apart : ∀ v ∈ views, ∀ name, v.data = .named name → ¬ Given demand name) :
    (∀ d ∈ (f.assemble demand).2, ∀ v ∈ views, v.data ≠ .named d.name) ∧
      (∀ d ∈ (f.assemble demand).2, d.recipe.origin ≠ .derived d.name) ∧
      ∀ earlier d later source, (f.assemble demand).2 = earlier ++ d :: later →
        d.recipe.origin = .derived source → source ∈ Dataset.names earlier ∨
          (∃ v ∈ views, v.data = .named source) ∧ source ∉ Dataset.names (f.assemble demand).2 := by
  have written := f.assemble_written demand
  have free : ∀ d ∈ (f.assemble demand).2, ∀ v ∈ views, v.data ≠ .named d.name :=
    fun d member v listed named => apart v listed d.name named (written.given member)
  have follows : ∀ earlier d later source, (f.assemble demand).2 = earlier ++ d :: later →
      d.recipe.origin = .derived source → source ∈ Dataset.names earlier ∨
        (∃ v ∈ views, v.data = .named source) ∧ source ∉ Dataset.names (f.assemble demand).2 := by
    intro earlier d later source split derived
    refine (written.follows split source (Output.Origin.source?_eq_some_iff.mpr derived)).imp_right ?_
    intro imports
    obtain ⟨v, listed, named⟩ := Lowering.imports_named laid built imports
    refine ⟨⟨v, listed, named⟩, ?_⟩
    intro taken
    obtain ⟨other, member, rfl⟩ := List.mem_map.mp taken
    exact free other member v listed named
  refine ⟨free, ?_, follows⟩
  intro d member own
  obtain ⟨earlier, later, split⟩ := List.append_of_mem member
  rcases follows earlier d later d.name split own with before | ⟨_, elsewhere⟩
  · have distinct := written.nodup
    rw [split, Dataset.names, List.map_append, List.map_cons] at distinct
    exact (List.nodup_middle.mp distinct).notMem (List.mem_append_left _ before)
  · exact elsewhere (List.mem_map_of_mem member)

def computing (name : String) : UnitView :=
  { name := "v", data := .named name, transform := [.calculate "1" "one"], encoding := .empty
    selection := .empty, mark := "point" }

theorem assemble_apart_cars :
    ∃ l outputs, Lowering.empty.addViews .builtIn .empty [computing "cars"] = .ok (l, outputs) ∧
      Dataset.names (l.forest.assemble (Demand.empty.request "v_main")).2 = ["v_main"] ∧
      ∀ d ∈ (l.forest.assemble (Demand.empty.request "v_main")).2, d.recipe.origin ≠ .derived d.name := by
  have names : (Lowering.empty.addViews .builtIn .empty [computing "cars"]).toOption.map (fun r =>
      Dataset.names (r.1.forest.assemble (Demand.empty.request "v_main")).2) = some ["v_main"] := by
    decide +kernel
  obtain ⟨⟨l, outputs⟩, laid, names⟩ := Forest.exists_ok names
  refine ⟨l, outputs, laid, names, ?_⟩
  refine (assemble_apart laid (.inl rfl) (Demand.empty.request "v_main") ?_).2.1
  intro v listed name named given
  rw [List.mem_singleton.mp listed] at named
  cases named
  rcases given.required_or_underscored with required | underscored
  · exact absurd required (by decide)
  · exact absurd underscored (by decide)

-- Data that goes by the name under which the view is written out is taken for it.
theorem assemble_captures :
    ∃ l outputs, Lowering.empty.addViews .builtIn .empty [computing "v_main"] = .ok (l, outputs) ∧
      ∃ d ∈ (l.forest.assemble (Demand.empty.request "v_main")).2,
        (computing "v_main").data = .named d.name ∧ d.recipe.origin = .derived d.name := by
  have own : (Lowering.empty.addViews .builtIn .empty [computing "v_main"]).toOption.map (fun r =>
      (r.1.forest.assemble (Demand.empty.request "v_main")).2.any fun d =>
        d.name == "v_main" && d.recipe.origin.source? == some "v_main") = some true := by
    decide +kernel
  obtain ⟨⟨l, outputs⟩, laid, captured⟩ := Forest.exists_ok own
  obtain ⟨d, member, found⟩ := List.any_eq_true.mp captured
  rw [Bool.and_eq_true, beq_iff_eq, beq_iff_eq] at found
  refine ⟨l, outputs, laid, d, member, ?_, ?_⟩
  · rw [found.1]
    rfl
  · rw [found.1]
    exact Output.Origin.source?_eq_some_iff.mp found.2

end Viewflow
