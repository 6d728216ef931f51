import Viewflow.Proofs.Lowering.Layers
import Viewflow.Proofs.Passes.Behind
import Viewflow.Proofs.Text.Identifiers
import Viewflow.Proofs.Views.Drawn

namespace Viewflow
open Viewflow.Flow (Demand Forest Lowering NamedStep NodeId Outputs Pipeline Step)
open Output (Dataset)

variable {config : Config} {registry : Registry} {index : Index} {spec : Spec} {forest : Forest}
  {demand : Demand} {outputs : List Outputs} {c : Compiled} {v : UnitView} {p : Pipeline}
  {views : List UnitView} {d : FieldDef} {encoded : List NamedStep} {f : Forest} {a id x : NodeId}
  {l l' : Lowering}

def FieldDef.binStem? (d : FieldDef) : Option String :=
  if d.aggregate.isNone && d.bin then d.field.map binField else none

def UnitView.binStems (v : UnitView) : List String := v.encoding.values.filterMap FieldDef.binStem?

def Spec.binStems (spec : Spec) : List String := spec.views.flatMap UnitView.binStems

def binSignals (stem : String) : List String := [stem ++ "_extent", stem ++ "_bins"]

theorem binSignals_nodup (stems : List String) : (stems.flatMap binSignals).Nodup ↔ stems.Nodup := by
  have apart : ∀ s t : String, s ++ "_extent" ≠ t ++ "_bins" := by
    intro s t same
    have last := congrArg (fun s : String => s.toList.getLast?) same
    simp at last
  have shared : ∀ s t, s ≠ t ↔ ∀ name ∈ binSignals s, ∀ other ∈ binSignals t, name ≠ other := by
    intro s t
    simp [binSignals, apart, Ne.symm (apart _ _)]
  have own : ∀ s, (binSignals s).Nodup := by
    intro s
    simp [binSignals, apart]
  unfold List.Nodup at own ⊢
  rw [List.pairwise_flatMap]
  simp only [own, implies_true, true_and]
  exact List.Pairwise.iff fun s t => (shared s t).symm

namespace Flow

theorem signals_map (steps : List NamedStep) :
    (steps.map Prod.snd).flatMap Step.signals = steps.flatMap fun s => s.2.signals :=
  List.flatMap_map ..

namespace Pipeline

theorem early_silent (found : ofView registry index v = .ok p) :
    ∀ s ∈ p.early, s.2.signals = [] := by
  intro s member
  obtain ⟨_, _, shape⟩ | ⟨_, _, shape⟩ | shape | shape := early_shape found s member <;> rw [shape]
  · rfl
  · rfl
  · exact Step.signals_of_parse rfl
  · rfl

theorem encodingSteps_signals (found : encodingSteps d = .ok encoded) :
    (encoded.flatMap fun s => s.2.signals) = d.binStem?.toList.flatMap binSignals := by
  unfold FieldDef.binStem?
  obtain ⟨field, present, plain, binned, rfl⟩ | ⟨field, unit, _, _, unbinned, _, _, rfl⟩ | ⟨none, rfl⟩ :=
    encodingSteps_cases found
  · have safe : Text.identifier (binField field) = binField field := Text.identifier_identifier _
    simp [present, plain, binned, binSignals, Step.signals, Step.transforms, Output.Transform.signals, safe]
  · simp [unbinned, Step.signals, Step.transforms, Output.Transform.signals]
  · cases plain : d.aggregate with
    | some op => rfl
    | none =>
      cases present : d.field with
      | none => simp
      | some field => simp [(none field present plain).1]

theorem eachEncodingSteps_signals {ds : List FieldDef} (found : eachEncodingSteps ds = .ok encoded) :
    (encoded.flatMap fun s => s.2.signals) = (ds.filterMap FieldDef.binStem?).flatMap binSignals := by
  obtain ⟨parts, every, rfl⟩ := eachEncodingSteps_spec found
  clear found
  induction every with
  | nil => rfl
  | cons first _ ih =>
    rw [List.flatten_cons, List.flatMap_append, encodingSteps_signals first, ih, List.filterMap_cons]
    cases FieldDef.binStem? _ with
    | none => rfl
    | some stem => simp

theorem aggregateSteps_signals (v : UnitView) :
    ((aggregateSteps v).flatMap fun s => s.2.signals) = [] := by
  obtain ⟨_, none⟩ | ⟨_, one⟩ := aggregateSteps_cases v
  · rw [none, List.flatMap_nil]
  · simp [one, Step.signals, Step.transforms, Output.Transform.signals]

theorem body_signals (found : ofView registry index v = .ok p) :
    (body v p).flatMap Step.signals = v.binStems.flatMap binSignals := by
  have early : (p.early.flatMap fun s => s.2.signals) = [] :=
    List.flatMap_eq_nil_iff.mpr (early_silent found)
  obtain ⟨own, encoded, _, encodes, rfl⟩ := ofView_spec found
  simp only [body, rawStep, mainStep, List.flatMap_append, List.flatMap_cons, List.flatMap_nil,
    Step.signals_output, signals_map, aggregateSteps_signals, List.nil_append, List.append_nil]
  simp only [List.flatMap_append] at early
  rw [early, List.nil_append]
  exact eachEncodingSteps_signals encodes

end Pipeline

namespace Forest

theorem WellFormed.exists_tip (valid : f.WellFormed) (id : NodeId) (attached : f.isAttached id = true) :
    ∃ tip, Above f.parent? id tip ∧ f.isAttached tip = true ∧ f.children tip = [] := by
  refine valid.downward (motive := fun id => f.isAttached id = true →
    ∃ tip, Above f.parent? id tip ∧ f.isAttached tip = true ∧ f.children tip = [])
    (fun id ih attached => ?_) id attached
  cases children : f.children id with
  | nil => exact ⟨id, .here, attached, children⟩
  | cons c rest =>
    have listed : c ∈ f.children id := by simp [children]
    have named := valid.pointsBack id c listed
    obtain ⟨tip, above, rest⟩ := ih c listed ((valid.attached_iff_parent named).mpr attached)
    exact ⟨tip, (Above.parent named).trans above, rest⟩

theorem WellFormed.route_above (valid : f.WellFormed) (above : Above f.parent? a x) :
    ∃ rest, f.route x = f.route a ++ rest := by
  induction above with
  | here => exact ⟨[], (List.append_nil _).symm⟩
  | @under id p named _ ih =>
    obtain ⟨rest, route⟩ := ih
    exact ⟨rest ++ [f.step id], by rw [valid.route_under named, route, List.append_assoc]⟩

theorem signals_layers (f : Forest) :
    f.signals f.attachedIds = f.layers.flatMap fun layer => layer.1.signals := by
  unfold Forest.signals layers
  rw [List.flatMap_map]

end Forest

namespace Lowering

theorem signals_inside (layers : List (Step × Nat)) :
    ((layers.filter inside).flatMap fun layer => layer.1.signals) =
      layers.flatMap fun layer => layer.1.signals :=
  signals_filter _ _ layers fun layer _ outside => Step.signals_of_source (by simpa [inside] using outside)

theorem signals_addViews (laid : Lowering.empty.addViews registry index views = .ok (l, outputs)) :
    l.forest.signals l.forest.attachedIds = (views.flatMap UnitView.binStems).flatMap binSignals := by
  obtain ⟨ps, every, layers⟩ := layers_addViews (.empty _) .empty laid
  have none : Lowering.empty.forest.layers.filter inside = [] := rfl
  rw [Forest.signals_layers, ← signals_inside, layers, none, List.nil_append]
  clear layers laid
  induction every with
  | nil => rfl
  | @cons v p views ps found _ ih =>
    have own : (((Pipeline.body v p).zipIdx 1).flatMap fun layer => layer.1.signals) =
        (Pipeline.body v p).flatMap Step.signals := by
      rw [← List.flatMap_map (f := Prod.fst) (g := Step.signals), List.zipIdx_map_fst]
    rw [List.zipWith_cons_cons, List.flatten_cons, List.flatMap_append, ih, own,
      Pipeline.body_signals found, List.flatMap_cons, List.flatMap_append]

theorem behind_addViews (laid : Lowering.empty.addViews registry index views = .ok (l, outputs))
    (asked : l.requestMain outputs = .ok l') :
    ∀ x, l'.forest.isAttached x = true → (l'.forest.step x).signals ≠ [] →
      ∃ a, Above l'.forest.parent? a x ∧ (l'.forest.step a).isOutput = true := by
  obtain ⟨strands, _, every⟩ := lowered_spec laid asked
  have valid := strands.valid
  have tips := asked_lowered laid asked
  intro x attached loud
  obtain ⟨tip, above, attached', childless⟩ := valid.exists_tip x attached
  have wanted := tips.tips tip attached' childless
  obtain ⟨o, listed, rfl⟩ := List.mem_map.mp (tips.wanted tip attached' wanted)
  obtain ⟨v, _, p, found, laid', _⟩ := forall₂_exists every listed
  obtain ⟨w, _, route⟩ := laid'.route
  obtain ⟨rest, continued⟩ := valid.route_above above
  have last : l'.forest.step x ∈ l'.forest.route x := valid.mem_route .here
  rw [continued] at route
  -- The way to the raw output defines no signals, so that the node is further down.
  have quiet : ∀ s ∈ Step.source w.data :: p.early.map Prod.snd, s.signals = [] := by
    intro s member
    rcases List.mem_cons.mp member with rfl | early
    · rfl
    · obtain ⟨step, listed, rfl⟩ := List.mem_map.mp early
      exact Pipeline.early_silent found step listed
  have parts : Pipeline.steps v w.data p = (Step.source w.data :: p.early.map Prod.snd) ++
      Pipeline.rawStep v :: (p.late.map Prod.snd ++ [Pipeline.mainStep v]) := by
    simp [Pipeline.steps]
  rw [parts, List.append_eq_append_iff] at route
  rcases route with ⟨more, before, _⟩ | ⟨more, before, after⟩
  · exact absurd (quiet _ (before ▸ List.mem_append_left _ last)) loud
  · cases more with
    | nil =>
      rw [List.append_nil] at before
      exact absurd (quiet _ (before ▸ last)) loud
    | cons s more =>
      obtain ⟨rfl, _⟩ := List.cons.inj after
      have passed : Pipeline.rawStep v ∈ l'.forest.route x := by simp [before]
      unfold Forest.route at passed
      rw [List.mem_reverse, List.mem_map] at passed
      obtain ⟨a, member, raw⟩ := passed
      exact ⟨a, valid.mem_lineage_iff.mp member, by rw [raw]; rfl⟩

end Lowering
end Flow

namespace Compilation

variable {scene scene' : Scene} {pairs : List (Unit × Outputs)}

theorem signals_arranged
    (done : arranged config registry index spec = .ok (forest, demand, outputs)) :
    (Dataset.signals (forest.assemble demand).2).Perm (spec.binStems.flatMap binSignals) := by
  have asked := arranged_asked done
  have valid := (arranged_spec done).1
  have once : forest.walkAll.Perm forest.attachedIds :=
    (List.perm_ext_iff_of_nodup valid.walkAll_nodup forest.attachedIds_nodup).mpr fun x =>
      valid.mem_walkAll_iff.trans valid.mem_attachedIds_iff.symm
  rw [valid.signals_assemble asked]
  refine (once.flatMap_right _).trans (.of_eq ?_)
  obtain ⟨⟨l, outputs'⟩, laid, done⟩ := bind_eq_ok done
  obtain ⟨l', requested, done⟩ := bind_eq_ok done
  obtain ⟨g, improved, done⟩ := bind_eq_ok done
  cases done
  have laidSignals := Lowering.signals_addViews laid
  rw [← (Lowering.requestMain_spec requested).1] at laidSignals
  unfold optimized at improved
  cases on : config.optimize with
  | false =>
    simp only [on, Bool.false_eq_true, if_false] at improved
    cases improved
    exact laidSignals
  | true =>
    simp only [on, if_true] at improved
    obtain ⟨strands, _, _⟩ := Lowering.lowered_spec laid requested
    obtain ⟨h, tally, settles, _⟩ := strands.optimize config.maxRounds
    rw [settles] at improved
    cases improved
    exact (strands.signals_optimize (Lowering.asked_lowered laid requested)
      (Lowering.behind_addViews laid requested) settles).trans laidSignals

theorem signals_stores (selections : Selections) (datasets : List Dataset) :
    Dataset.signals (selections.stores datasets) = Dataset.signals datasets := by
  unfold Selections.stores
  induction selections.values generalizing datasets with
  | nil => rfl
  | cons s rest ih =>
    rw [List.foldl_cons, ih]
    unfold Selections.addStore
    split
    · rfl
    · rw [Dataset.signals, List.flatMap_append]
      exact List.append_nil _

theorem signals_addUnits (done : addUnits registry forest scene pairs = .ok scene') :
    Dataset.signals scene'.data = Dataset.signals scene.data := by
  unfold addUnits at done
  induction pairs generalizing scene with
  | nil =>
    cases done
    rfl
  | cons pair pairs ih =>
    rw [List.foldlM_cons] at done
    obtain ⟨middle, first, rest⟩ := bind_eq_ok done
    obtain ⟨_, _, _, _, _, _, _, _, rfl⟩ := addUnit_parts first
    exact (ih rest).trans (signals_stores ..)

end Compilation

open Compilation in
-- The datasets define two signals for every binned encoding of every view, whatever the passes did, and
-- no others. They are distinct where no two binned encodings have fields that are written alike.
theorem compile_bin_signals (done : compile config registry spec = .ok c) :
    (Dataset.signals c.data).Perm (spec.binStems.flatMap binSignals) ∧
      ((Dataset.signals c.data).Nodup ↔ spec.binStems.Nodup) := by
  obtain ⟨us, forest, demand, outputs, scene, _, placed, shown, data, _⟩ := compile_parts done
  have perm := signals_arranged placed
  have same : Dataset.signals c.data = Dataset.signals (forest.assemble demand).2 := by
    rw [data]
    exact signals_addUnits shown
  rw [← same] at perm
  exact ⟨perm, perm.nodup_iff.trans (binSignals_nodup _)⟩

def histogram (name field : String) : UnitView :=
  { name, data := .remote "cars.csv" none, transform := [], selection := .empty, mark := "bar"
    encoding := (Keyed.empty.put .x ⟨some field, .quantitative, none, true, none, none⟩).put .y
      ⟨none, .quantitative, some "count", false, none, none⟩ }

theorem compile_bin_signals_two_fields :
    ∃ c, compile {} .builtIn ⟨[histogram "far" "miles", histogram "old" "year"]⟩ = .ok c ∧
      (Dataset.signals c.data).Nodup := by
  have compiles : (compile {} .builtIn ⟨[histogram "far" "miles", histogram "old" "year"]⟩).toOption.map
      (fun c => (Dataset.signals c.data).length) = some 4 := by decide +kernel
  obtain ⟨c, done, _⟩ := Flow.Forest.exists_ok compiles
  exact ⟨c, done, (compile_bin_signals done).2.mpr (by decide +kernel)⟩

-- Two views that bin the same field, each in a dataset of its own, define the same signals.
theorem compile_bin_signals_meet :
    ∃ c, compile {} .builtIn ⟨[histogram "far" "miles", histogram "near" "miles"]⟩ = .ok c ∧
      (Dataset.signals c.data).count "bin_maxbins_10_miles_extent" = 2 ∧
      ¬ (Dataset.signals c.data).Nodup := by
  have compiles : (compile {} .builtIn ⟨[histogram "far" "miles", histogram "near" "miles"]⟩).toOption.map
      (fun c => (Dataset.signals c.data).count "bin_maxbins_10_miles_extent") = some 2 := by
    decide +kernel
  obtain ⟨c, done, twice⟩ := Flow.Forest.exists_ok compiles
  refine ⟨c, done, twice, fun distinct => ?_⟩
  have once := List.nodup_iff_count_le_one.mp distinct "bin_maxbins_10_miles_extent"
  rw [twice] at once
  exact absurd once (by decide)

end Viewflow
