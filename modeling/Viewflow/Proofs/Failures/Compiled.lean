import Viewflow.Proofs.Compiled
import Viewflow.Proofs.Failures.Resolution

namespace Viewflow
open Viewflow.Flow (Demand Forest Lowering Outputs Pipeline)
open Output (Mark Signal)

variable {config : Config} {registry : Registry} {index : Index} {spec : Spec} {forest : Forest}
  {demand : Demand} {outputs : List Outputs}

namespace Spec

def declared (spec : Spec) : List String :=
  spec.views.flatMap fun v => v.selection.keys.map Text.identifier

def wrongSelections (registry : Registry) (v : UnitView) : List Failure :=
  v.selection.entries.flatMap fun e => e.2.wrong registry e.1

def wrongDomains (known : List String) (v : UnitView) : List Failure :=
  (v.encoding.values.filterMap FieldDef.selectionDomain?).flatMap fun d => unknown known d.selection

-- All that is wrong, in the order in which it would be reported.
def wrong (registry : Registry) (spec : Spec) : List Failure :=
  spec.views.flatMap (wrongSelections registry) ++ spec.views.flatMap (·.wrong spec.declared) ++
    spec.views.flatMap (wrongDomains spec.declared)

structure Sound (registry : Registry) (spec : Spec) : Prop where
  types : ∀ v ∈ spec.views, ∀ e ∈ v.selection.entries, (registry.find? e.2.type).isSome = true
  projections : ∀ v ∈ spec.views, ∀ e ∈ v.selection.entries, ∀ p ∈ e.2.project.getD [],
    p.isProper = true
  filters : ∀ v ∈ spec.views, ∀ operand, .filter (.selection operand) ∈ v.transform →
    ∀ name ∈ operand.leaves, Text.identifier name ∈ spec.declared
  timeUnits : ∀ v ∈ spec.views, ∀ d ∈ v.encoding.values, ∀ field unit,
    d.timeUnit? = some (field, unit) → TimeUnit.isKnown unit = true
  domains : ∀ v ∈ spec.views, ∀ d ∈ v.encoding.values, ∀ s, d.selectionDomain? = some s →
    Text.identifier s.selection ∈ spec.declared

theorem unknown_eq_nil_iff {known : List String} {name : String} :
    unknown known name = [] ↔ Text.identifier name ∈ known := by
  unfold unknown
  split <;> simp_all

theorem wrongFilters_eq_nil_iff {known : List String} {v : UnitView} :
    v.transform.flatMap (·.wrong known) = [] ↔
      ∀ operand, .filter (.selection operand) ∈ v.transform → ∀ name ∈ operand.leaves,
        Text.identifier name ∈ known := by
  simp only [List.flatMap_eq_nil_iff]
  constructor
  · intro none operand member name leaf
    have fine := none _ member
    simp only [TransformDef.wrong, List.flatMap_eq_nil_iff] at fine
    exact unknown_eq_nil_iff.mp (fine name leaf)
  · intro all t member
    cases t with
    | calculate _ _ => rfl
    | filter filter =>
      cases filter with
      | expression _ => rfl
      | selection operand =>
        simp only [TransformDef.wrong, List.flatMap_eq_nil_iff]
        exact fun name leaf => unknown_eq_nil_iff.mpr (all operand member name leaf)

theorem wrongTimeUnit_eq_nil_iff {d : FieldDef} :
    d.wrong = [] ↔ ∀ field unit, d.timeUnit? = some (field, unit) → TimeUnit.isKnown unit = true := by
  unfold FieldDef.wrong
  cases d.timeUnit? with
  | none => simp
  | some asked =>
    obtain ⟨field, unit⟩ := asked
    by_cases known : TimeUnit.isKnown unit = true <;> simp [known]

theorem wrong_not_fault {e : Failure} (listed : e ∈ spec.wrong registry) (fault : Flow.Fault) :
    e ≠ .fault fault := by
  have strange : ∀ known name, .fault fault ∉ unknown known name := by
    intro known name
    unfold unknown
    split <;> simp
  rintro rfl
  simp only [wrong, List.mem_append, List.mem_flatMap, wrongSelections, UnitView.wrong,
    wrongDomains] at listed
  rcases listed with (⟨v, _, e, _, wrong⟩ | ⟨v, _, ⟨t, _, wrong⟩ | ⟨d, _, wrong⟩⟩) |
    ⟨v, _, d, _, wrong⟩
  · unfold SelectionDef.wrong at wrong
    split at wrong <;> simp at wrong
  · unfold TransformDef.wrong at wrong
    split at wrong
    · obtain ⟨name, _, wrong⟩ := List.mem_flatMap.mp wrong
      exact strange _ _ wrong
    · cases wrong
  · unfold FieldDef.wrong unknownTimeUnit at wrong
    split at wrong
    · split at wrong <;> simp at wrong
    · cases wrong
  · exact strange _ _ wrong

theorem wrong_eq_nil_iff : spec.wrong registry = [] ↔ spec.Sound registry := by
  simp only [wrong, List.append_eq_nil_iff, List.flatMap_eq_nil_iff, wrongSelections,
    SelectionDef.wrong_eq_nil_iff, UnitView.wrong, wrongDomains, List.mem_filterMap,
    unknown_eq_nil_iff]
  simp only [← List.flatMap_eq_nil_iff (l := UnitView.transform _), wrongFilters_eq_nil_iff,
    wrongTimeUnit_eq_nil_iff]
  constructor
  · rintro ⟨⟨selections, views⟩, domains⟩
    exact ⟨fun v view e entry => (selections v view e entry).1,
      fun v view e entry => (selections v view e entry).2, fun v view => (views v view).1,
      fun v view => (views v view).2, fun v view d listed s found => domains v view s ⟨d, listed, found⟩⟩
  · intro sound
    refine ⟨⟨fun v view e entry => ⟨sound.types v view e entry, sound.projections v view e entry⟩,
      fun v view => ⟨sound.filters v view, sound.timeUnits v view⟩⟩, ?_⟩
    rintro v view s ⟨d, listed, found⟩
    exact sound.domains v view d listed s found

end Spec

namespace Compilation

variable {us : List Unit}

theorem units_reports (config : SelectionConfig) :
    Reports (units spec registry config) (spec.views.flatMap (Spec.wrongSelections registry)) := by
  have each : Reports (units spec registry config)
      (spec.contexts.flatMap fun ctx => Spec.wrongSelections registry ctx.view) :=
    Reports.mapM fun ctx _ => Selections.ofView_reports.then_ok fun _ _ => .ok _
  rwa [Spec.contexts, List.flatMap_map] at each

theorem units_made {config : SelectionConfig} (done : units spec registry config = .ok us) :
    ∀ u ∈ us, Selections.ofView u.context registry config = .ok u.selections := by
  intro u member
  obtain ⟨ctx, _, made⟩ := forall₂_exists (forall₂_of_mapM done) member
  obtain ⟨selections, found, made⟩ := bind_eq_ok made
  cases made
  exact found

theorem views_of_units (done : units spec registry config.selection = .ok us) :
    us.map (fun u => u.context.view) = spec.views := by
  have contexts := congrArg (List.map (·.view)) (units_spec done)
  rw [List.map_map, Spec.contexts, List.map_map] at contexts
  exact contexts.trans (List.map_id _)

theorem mem_views_iff (done : units spec registry config.selection = .ok us) {v : UnitView} :
    v ∈ spec.views ↔ ∃ u ∈ us, u.context.view = v := by
  rw [← views_of_units done, List.mem_map]

theorem indexOf_sorted {config : SelectionConfig}
    (made : ∀ u ∈ us, Selections.ofView u.context registry config = .ok u.selections) :
    (indexOf us).Sorted := by
  have grown : ∀ index : Index, index.Sorted →
      (us.foldl (fun index u => index.insertAll u.context.unitName u.selections) index).Sorted := by
    induction us with
    | nil => exact fun _ sorted => sorted
    | cons u us ih =>
      intro index sorted
      refine ih (fun w member => made w (List.mem_cons_of_mem _ member)) _
        (sorted.insertAll fun s listed => ?_)
      exact (Selections.mem_ofView (made u (List.mem_cons_self ..)) listed).2.safe
  exact grown _ .empty

theorem indexOf_serves (done : units spec registry config.selection = .ok us) :
    (indexOf us).Serves registry spec.declared := by
  have made := units_made done
  refine ⟨indexOf_sorted made, ?_, ?_⟩
  · intro i held
    obtain ⟨u, member, _, listed⟩ := holds_indexOf.mp held
    exact (Selections.mem_ofView (made u member) listed).2.registered
  · intro name
    rw [Spec.declared, List.mem_flatMap]
    constructor
    · rintro ⟨v, view, declares⟩
      obtain ⟨u, member, rfl⟩ := (mem_views_iff done).mp view
      obtain ⟨key, listed, named⟩ := List.mem_map.mp declares
      obtain ⟨e, entry, rfl⟩ := List.mem_map.mp listed
      obtain ⟨s, found⟩ := Keyed.mem_keys_iff.mp ((Selections.ofView_keys (made u member)).mpr
        ⟨e, entry, named⟩)
      exact ⟨⟨u.context.unitName, s⟩, holds_indexOf.mpr ⟨u, member, rfl,
        Keyed.mem_values_iff.mpr ⟨name, found⟩⟩, (Selections.ofView_find? (made u member) found).1⟩
    · rintro ⟨i, held, rfl⟩
      obtain ⟨u, member, _, listed⟩ := holds_indexOf.mp held
      have here := (Selections.mem_ofView (made u member) listed).1
      obtain ⟨e, entry, named⟩ := (Selections.ofView_keys (made u member)).mp
        (Keyed.mem_keys_iff.mpr ⟨_, here⟩)
      exact ⟨u.context.view, (mem_views_iff done).mpr ⟨u, member, rfl⟩,
        List.mem_map.mpr ⟨e.1, List.mem_map.mpr ⟨e, entry, rfl⟩, named⟩⟩

end Compilation

namespace Flow.Lowering

variable {l : Lowering}

theorem request_reports {id : NodeId} {b : Boundary} (output : l.forest.step id = .output b) :
    Reports (l.request id) [] := by
  unfold request Forest.boundary
  rw [output]
  exact .ok _

theorem requestMain_reports (mains : ∀ o ∈ outputs, ∃ b, l.forest.step o.main = .output b) :
    Reports (l.requestMain outputs) [] := by
  unfold requestMain
  induction outputs generalizing l with
  | nil => exact .ok l
  | cons o outputs ih =>
    obtain ⟨b, output⟩ := mains o (List.mem_cons_self ..)
    rw [List.foldlM_cons]
    refine (request_reports output).then_ok fun l' done => ih ?_
    obtain ⟨_, _, same, _⟩ := request_spec done
    intro o' member
    rw [same]
    exact mains o' (List.mem_cons_of_mem _ member)

theorem mains_of_addViews {views : List UnitView}
    (laid : Lowering.empty.addViews registry index views = .ok (l, outputs)) :
    ∀ o ∈ outputs, ∃ b, l.forest.step o.main = .output b := by
  obtain ⟨strands, _, _, _, every⟩ := addViews_spec (.empty _) .empty laid
  intro o member
  obtain ⟨v, _, p, _, laid⟩ := forall₂_exists every member
  obtain ⟨w, _, route⟩ := laid.route
  unfold Pipeline.steps at route
  rw [← List.cons_append] at route
  exact ⟨_, strands.valid.step_of_route route⟩

end Flow.Lowering

namespace Compilation

variable {us : List Unit} {scene : Scene}

theorem arranged_reports {known : List String} (serves : index.Serves registry known) :
    Reports (arranged config registry index spec) (spec.views.flatMap (·.wrong known)) := by
  refine (Lowering.addViews_reports serves .empty spec.views).then_ok ?_
  rintro ⟨l, outputs⟩ laid
  refine (Lowering.requestMain_reports (Lowering.mains_of_addViews laid)).then_ok ?_
  intro l' asked
  have valid := (Lowering.lowered_spec laid asked).1.valid
  have improves : Reports (optimized config l') [] := by
    unfold optimized
    split
    · obtain ⟨g, tally, done, _⟩ := valid.optimize l'.demand config.maxRounds
      rw [done]
      exact .ok _
    · exact .ok _
  exact improves.then_ok fun _ _ => .ok _

section Shown

variable {u : Unit} (registered : ∀ s ∈ u.selections.values, (registry.find? s.type).isSome = true)
include registered

theorem marks_reports (ctx : UnitContext) (before : List Mark) :
    ∃ marks, u.selections.marks ctx registry before = .ok marks :=
  Reports.foldlM_ok (fun s listed _ =>
    (Registry.lookup_reports (registered s listed) _).then_ok fun _ _ => .ok _) before

theorem signals_reports (ctx : UnitContext) (before : List Signal) :
    ∃ signals, u.selections.signals ctx registry before = .ok signals :=
  Reports.foldlM_ok (fun s listed _ =>
    (Registry.lookup_reports (registered s listed) _).then_ok fun _ _ => .ok _) before

theorem topLevelSignals_reports (ctx : UnitContext) (before : List Signal) :
    Reports (u.selections.topLevelSignals ctx registry before) [] := by
  have folded : Reports (u.selections.values.foldlM
      (Selections.addTopLevelSignals ctx registry) before) [] :=
    Reports.foldlM_ok (fun s listed _ =>
      (Registry.lookup_reports (registered s listed) _).then_ok fun _ _ => .ok _) before
  refine folded.then_ok fun signals _ => ?_
  split <;> exact .ok _

theorem addUnit_reports {o : Outputs} {b : Flow.Boundary} (output : forest.step o.main = .output b)
    (scene : Scene) : Reports (addUnit registry forest scene u o) [] := by
  have main : Reports (Failure.ofFlow (forest.boundary o.main)) [] := by
    unfold Forest.boundary
    rw [output]
    exact .ok _
  refine main.then_ok fun b _ => ?_
  refine Reports.then_ok (marks_reports registered _ _) fun marks _ => ?_
  refine Reports.then_ok (signals_reports registered _ _) fun signals _ => ?_
  refine (topLevelSignals_reports registered _ _).then_ok fun top _ => ?_
  split <;> exact .ok _

end Shown

theorem predicates_reports {known : List String} (serves : index.Serves registry known) :
    Reports (predicates registry index) [] := by
  refine Reports.foldlM_ok (fun name listed before => ?_) _
  obtain ⟨some, safe⟩ := serves.sorted.instances_of_key listed
  have declared : Text.identifier name ∈ known := by
    by_contra strange
    rw [safe] at strange
    exact some (serves.instances_eq_nil strange)
  have tests := serves.selectionTest_reports name
  rw [Spec.unknown_eq_nil_iff.mpr declared] at tests
  exact tests.then_ok fun _ _ => .ok _

theorem followingScales_reports {known : List String} (serves : index.Serves registry known)
    (u : Unit) :
    Reports (followingScales registry index u) (Spec.wrongDomains known u.context.view) := by
  have each : Reports (followingScales registry index u)
      ((u.context.view.encoding.entries.filterMap fun entry =>
        entry.2.selectionDomain?.map fun d => (entry.1, d)).flatMap fun c =>
          unknown known c.2.selection) :=
    Reports.mapM fun c _ => (serves.domainSignal_reports _ c.2).then_ok fun _ _ => .ok _
  have same : (u.context.view.encoding.entries.filterMap fun entry =>
      entry.2.selectionDomain?.map fun d => (entry.1, d)).map Prod.snd =
        u.context.view.encoding.values.filterMap FieldDef.selectionDomain? := by
    rw [List.map_filterMap, Keyed.values, List.filterMap_map]
    congr 1
    funext entry
    simp [Option.map_map, Function.comp_def]
  unfold Spec.wrongDomains
  rw [← same, List.flatMap_map]
  exact each

theorem scaleDomains_reports {known : List String} (serves : index.Serves registry known)
    (us : List Unit) :
    Reports (scaleDomains registry index us)
      (us.flatMap fun u => Spec.wrongDomains known u.context.view) :=
  Reports.foldlM (fun u _ _ => (followingScales_reports serves u).then_ok fun _ _ => .ok _) _

theorem mains_of_arranged (done : arranged config registry index spec = .ok (forest, demand, outputs)) :
    ∀ o ∈ outputs, ∃ b, (forest.assemble demand).1.step o.main = .output b := by
  obtain ⟨valid, sources, _, every⟩ := arranged_spec done
  obtain ⟨_, _, _, _, _, _, _, bound⟩ :=
    valid.assemble_spec (fun id _ source => sources id source) demand
  intro o member
  obtain ⟨v, _, delivers, _⟩ := forall₂_exists every member
  obtain ⟨b, output, required⟩ := delivers.wanted
  obtain ⟨source, step, _⟩ := bound o.main b delivers.attached output required
  exact ⟨_, step⟩

theorem addUnits_reports {us : List Unit}
    (done : units spec registry config.selection = .ok us)
    (mains : ∀ o ∈ outputs, ∃ b, forest.step o.main = .output b) (scene : Scene) :
    Reports (addUnits registry forest scene (us.zip outputs)) [] := by
  refine Reports.foldlM_ok (fun pair member before => ?_) scene
  obtain ⟨listed, asked⟩ := List.of_mem_zip member
  obtain ⟨b, output⟩ := mains pair.2 asked
  refine addUnit_reports (fun s declared => ?_) output before
  exact (Selections.mem_ofView (units_made done pair.1 listed) declared).2.registered

theorem compile_wrong (config : Config) (registry : Registry) (spec : Spec) :
    Reports (compile config registry spec) (spec.wrong registry) := by
  unfold Spec.wrong
  rw [List.append_assoc]
  refine (units_reports config.selection).bind fun us done => ?_
  have serves := indexOf_serves done
  refine (arranged_reports serves).bind ?_
  rintro ⟨forest, demand, outputs⟩ placed
  have shows := addUnits_reports done (mains_of_arranged placed)
    ⟨(forest.assemble demand).2, [], [], []⟩
  have rest : Reports (do
      let scene ← addUnits registry (forest.assemble demand).1
        ⟨(forest.assemble demand).2, [], [], []⟩ (us.zip outputs)
      let predicates ← predicates registry (indexOf us)
      let scaleDomains ← scaleDomains registry (indexOf us) us
      return ({
        data := scene.data
        signals := scene.topSignals ++ scene.unitSignals
        marks := scene.marks
        predicates
        scaleDomains } : Compiled))
      ([] ++ ([] ++ us.flatMap fun u => Spec.wrongDomains spec.declared u.context.view)) :=
    shows.bind fun _ _ => (predicates_reports serves).bind fun _ _ =>
      (scaleDomains_reports serves us).then_ok fun _ _ => .ok _
  rw [← views_of_units done, List.flatMap_map]
  exact rest

end Compilation

-- A compilation succeeds when nothing is wrong with the specification, and else fails for the first
-- thing that is. No request to the forest can be what fails.
theorem compile_error_iff (config : Config) (registry : Registry) (spec : Spec) :
    ((∃ c, compile config registry spec = .ok c) ↔ spec.Sound registry) ∧
      (∀ e, compile config registry spec = .error e ↔ (spec.wrong registry).head? = some e) ∧
      ∀ fault, compile config registry spec ≠ .error (.fault fault) := by
  have reports := Compilation.compile_wrong config registry spec
  refine ⟨reports.ok_iff.trans Spec.wrong_eq_nil_iff, fun e => reports.error_iff, ?_⟩
  intro fault failed
  have first := reports.error_iff.mp failed
  exact Spec.wrong_not_fault (List.mem_of_mem_head? first) fault rfl

end Viewflow
