import Viewflow.Proofs.Lowering.Aggregates
import Viewflow.Proofs.Lowering.Requests
import Viewflow.Selection.Brush

namespace Viewflow
open Viewflow.Flow (Forest Lowering Measure NamedStep NodeId Outputs Pipeline Step)

variable {registry : Registry} {index : Index} {v : UnitView} {p : Pipeline} {views : List UnitView}
  {outputs : List Outputs} {l : Lowering} {d : FieldDef} {ds : List FieldDef} {field name : String}
  {encoded : List NamedStep} {steps more : List Step} {before : List String} {groupBy : List String}
  {measures : List Measure}

namespace Flow

-- The columns that rows have behind a step. An aggregate keeps none but its own.
def Step.columns (before : List String) (s : Step) : List String :=
  if s.isAggregate then s.produced.toList else before ++ s.produced.toList

def columnsPast (before : List String) (steps : List Step) : List String := steps.foldl Step.columns before

theorem mem_columnsPast (none : ∀ s ∈ steps, s.isAggregate = false) :
    name ∈ columnsPast before steps ↔ name ∈ before ∨ ∃ s ∈ steps, name ∈ s.produced.toList := by
  induction steps generalizing before with
  | nil => simp [columnsPast]
  | cons s steps ih =>
    obtain ⟨first, others⟩ := List.forall_mem_cons.mp none
    have step : s.columns before = before ++ s.produced.toList := if_neg (by simp [first])
    unfold columnsPast at ih ⊢
    rw [List.foldl_cons, ih others, step, List.mem_append, or_assoc, List.exists_mem_cons_iff]

namespace Forest

variable {f : Forest} {a b : NodeId}

def stepsPast (f : Forest) (a b : NodeId) : List Step :=
  (((f.lineage b).takeWhile (· ≠ a)).map f.step).reverse

theorem WellFormed.route_past (valid : f.WellFormed) (above : Above f.parent? a b) :
    f.route b = f.route a ++ f.stepsPast a b := by
  induction above with
  | here =>
    have none : f.stepsPast a a = [] := by
      unfold stepsPast
      cases named : f.parent? a with
      | none => simp [valid.lineage_top named]
      | some p => simp [valid.lineage_under named]
    rw [none, List.append_nil]
  | @under id p named above ih =>
    have apart : id ≠ a := by
      rintro rfl
      exact valid.no_return named above
    rw [valid.route_under named, ih, List.append_assoc]
    unfold stepsPast
    rw [valid.lineage_under named, List.takeWhile_cons_of_pos (by simpa using apart), List.map_cons,
      List.reverse_cons]

end Forest
end Flow

-- The column that an encoding reads from the rows of a field: the lower ends of its bins, else its truncated
-- times, else the field itself.
structure FieldDef.Supplied (d : FieldDef) (field : String) (steps : List Step) : Prop where
  binned : d.bin = true → .bin field d.outputField (binEnd d.outputField) defaultMaxBins ∈ steps
  truncated : d.bin = false → ∀ unit, d.timeUnit = some unit → .timeUnit field unit d.outputField ∈ steps
  plain : d.bin = false → d.timeUnit = none → d.outputField = field

theorem FieldDef.Supplied.weaken (supplied : d.Supplied field steps) (sub : steps ⊆ more) :
    d.Supplied field more :=
  ⟨fun binned => sub (supplied.binned binned),
    fun unbinned unit asked => sub (supplied.truncated unbinned unit asked), supplied.plain⟩

theorem FieldDef.Supplied.cases (supplied : d.Supplied field steps) :
    (∃ s ∈ steps, d.outputField ∈ s.produced.toList) ∨ d.outputField = field := by
  cases binned : d.bin with
  | true => exact .inl ⟨_, supplied.binned binned, Distinct.mem_ofList.mpr (List.mem_cons_self ..)⟩
  | false =>
    cases asked : d.timeUnit with
    | some unit => exact .inl ⟨_, supplied.truncated binned unit asked, List.mem_singleton_self _⟩
    | none => exact .inr (supplied.plain binned asked)

-- An aggregate behind these steps. It keeps what each encoding reads, both ends of all bins, and it groups by
-- nothing that the steps or the encodings' fields do not give.
structure UnitView.Gathered (v : UnitView) (steps : List Step) (groupBy : List String)
    (measures : List Measure) : Prop where
  reads : ∀ d ∈ v.encoding.values, d.field.isSome = true ∨ d.aggregate.isSome = true →
    d.outputField ∈ (Step.aggregate groupBy measures).produced.toList
  ends : ∀ d ∈ v.encoding.values, d.field.isSome = true → d.aggregate = none → d.bin = true →
    binEnd d.outputField ∈ (Step.aggregate groupBy measures).produced.toList
  bins : ∀ field start stop maxBins, .bin field start stop maxBins ∈ steps →
    start ∈ (Step.aggregate groupBy measures).produced.toList ∧
      stop ∈ (Step.aggregate groupBy measures).produced.toList
  groups : ∀ name ∈ groupBy,
    (∃ field start stop maxBins, .bin field start stop maxBins ∈ steps ∧ (name = start ∨ name = stop)) ∨
      (∃ field unit, .timeUnit field unit name ∈ steps) ∨
      ∃ d ∈ v.encoding.values, d.field = some name ∧ d.aggregate = none ∧ d.bin = false ∧ d.timeUnit = none

namespace Flow.Pipeline

theorem supplied (encodes : eachEncodingSteps ds = .ok encoded) (listed : d ∈ ds)
    (present : d.field = some field) (plain : d.aggregate = none) :
    d.Supplied field (encoded.map Prod.snd) := by
  obtain ⟨parts, every, rfl⟩ := eachEncodingSteps_spec encodes
  obtain ⟨part, inside, made⟩ := forall₂_exists every.flip listed
  have sub : part ⊆ parts.flatten := fun s member => List.mem_flatten.mpr ⟨part, inside, member⟩
  apply FieldDef.Supplied.weaken _ (List.map_subset _ sub)
  obtain ⟨other, same, _, binned, rfl⟩ | ⟨other, unit, same, _, unbinned, asked, _, rfl⟩ | ⟨none, rfl⟩ :=
    encodingSteps_cases made
  · cases present.symm.trans same
    have start : d.outputField = binField field := by simp [FieldDef.outputField, plain, binned, present]
    exact ⟨fun _ => by simp [start], fun unbinned => by simp [binned] at unbinned,
      fun unbinned => by simp [binned] at unbinned⟩
  · cases present.symm.trans same
    refine ⟨fun binned => by simp [unbinned] at binned, fun _ unit' asked' => ?_, fun _ none => ?_⟩
    · cases asked.symm.trans asked'
      exact List.mem_singleton_self _
    · cases asked.symm.trans none
  · obtain ⟨unbinned, untruncated⟩ := none field present plain
    refine ⟨fun binned => by simp [unbinned] at binned, fun _ unit asked => ?_, fun _ _ => ?_⟩
    · cases untruncated.symm.trans asked
    · simp [FieldDef.outputField, plain, unbinned, untruncated, present]

theorem exists_of_bin {start stop : String} {maxBins : Nat} (encodes : eachEncodingSteps ds = .ok encoded)
    (member : .bin field start stop maxBins ∈ encoded.map Prod.snd) :
    ∃ d ∈ ds, d.field = some field ∧ d.aggregate = none ∧ d.bin = true ∧ start = d.outputField ∧
      stop = binEnd d.outputField := by
  obtain ⟨s, listed, same⟩ := List.mem_map.mp member
  obtain ⟨parts, every, rfl⟩ := eachEncodingSteps_spec encodes
  obtain ⟨part, inside, listed⟩ := List.mem_flatten.mp listed
  obtain ⟨d, declared, made⟩ := forall₂_exists every inside
  obtain ⟨other, present, plain, binned, rfl⟩ | ⟨_, _, _, _, _, _, _, rfl⟩ | ⟨_, rfl⟩ :=
    encodingSteps_cases made
  · rw [List.mem_singleton.mp listed] at same
    cases same
    have output : d.outputField = binField field := by simp [FieldDef.outputField, plain, binned, present]
    exact ⟨d, declared, present, plain, binned, output.symm, by rw [output]⟩
  · rw [List.mem_singleton.mp listed] at same
    cases same
  · cases listed

theorem gathered (encodes : eachEncodingSteps v.encoding.values = .ok encoded)
    (sub : encoded.map Prod.snd ⊆ steps)
    (bins : ∀ field start stop maxBins, .bin field start stop maxBins ∈ steps →
      .bin field start stop maxBins ∈ encoded.map Prod.snd) :
    v.Gathered steps (v.encoding.values.flatMap groupFields) (v.encoding.values.filterMap measure?) := by
  refine ⟨?_, ?_, ?_, ?_⟩
  · intro d listed asked
    cases aggregated : d.aggregate with
    | none =>
      have present : d.field.isSome = true := by simpa [aggregated] using asked
      exact groupField_produced listed (mem_groupFields.mpr ⟨aggregated, present, .inl rfl⟩) _
    | some op => exact measure_produced listed (by simp [aggregated]) _
  · intro d listed present plain binned
    exact groupField_produced listed (mem_groupFields.mpr ⟨plain, present, .inr ⟨binned, rfl⟩⟩) _
  · intro field start stop maxBins member
    obtain ⟨d, listed, present, plain, binned, rfl, rfl⟩ := exists_of_bin encodes (bins _ _ _ _ member)
    have some : d.field.isSome = true := by simp [present]
    exact ⟨groupField_produced listed (mem_groupFields.mpr ⟨plain, some, .inl rfl⟩) _,
      groupField_produced listed (mem_groupFields.mpr ⟨plain, some, .inr ⟨binned, rfl⟩⟩) _⟩
  · intro name member
    obtain ⟨d, listed, member⟩ := List.mem_flatMap.mp member
    obtain ⟨plain, some, which⟩ := mem_groupFields.mp member
    obtain ⟨field, present⟩ := Option.isSome_iff_exists.mp some
    have supplied := (supplied encodes listed present plain).weaken sub
    cases binned : d.bin with
    | true => exact .inl ⟨_, _, _, _, supplied.binned binned, which.imp id And.right⟩
    | false =>
      have same : name = d.outputField := by simpa [binned] using which
      cases asked : d.timeUnit with
      | some unit => exact .inr (.inl ⟨field, unit, same ▸ supplied.truncated binned unit asked⟩)
      | none =>
        have raw := same.trans (supplied.plain binned asked)
        exact .inr (.inr ⟨d, listed, raw ▸ present, plain, binned, asked⟩)

theorem bin_of_late {start stop : String} {maxBins : Nat}
    (member : .bin field start stop maxBins ∈
      (encoded ++ aggregateSteps v).map Prod.snd ++ [mainStep v]) :
    .bin field start stop maxBins ∈ encoded.map Prod.snd := by
  rw [List.map_append, List.append_assoc] at member
  rcases List.mem_append.mp member with encoding | other
  · exact encoding
  · obtain ⟨_, none⟩ | ⟨_, one⟩ := aggregateSteps_cases v
    · simp [none, mainStep] at other
    · simp [one, mainStep] at other

theorem mem_columnsPast_late (encodes : eachEncodingSteps v.encoding.values = .ok encoded)
    (had : ∀ d ∈ v.encoding.values, ∀ field, d.field = some field → d.aggregate = none → field ∈ before)
    (listed : d ∈ v.encoding.values) (asked : d.field.isSome = true ∨ d.aggregate.isSome = true) :
    d.outputField ∈ columnsPast before ((encoded ++ aggregateSteps v).map Prod.snd ++ [mainStep v]) := by
  obtain ⟨plain, none⟩ | ⟨_, one⟩ := aggregateSteps_cases v
  · have aggregated : d.aggregate = Option.none := plain d listed
    obtain ⟨field, present⟩ := Option.isSome_iff_exists.mp (by simpa [aggregated] using asked)
    have quiet : ∀ s ∈ encoded.map Prod.snd ++ [mainStep v], s.isAggregate = false := by
      intro s member
      rcases List.mem_append.mp member with encoding | main
      · exact encoded_not_aggregate encodes s encoding
      · rw [List.mem_singleton.mp main]
        rfl
    rw [none, List.append_nil, mem_columnsPast quiet]
    rcases (supplied encodes listed present aggregated).cases with ⟨s, member, made⟩ | same
    · exact .inr ⟨s, List.mem_append_left _ member, made⟩
    · exact .inl (same ▸ had d listed field present aggregated)
  · have reads := (gathered encodes (List.Subset.refl _) fun _ _ _ _ member => member).reads d listed asked
    simpa [one, columnsPast, Step.columns, Step.isAggregate, mainStep, Step.produced, Distinct.empty] using reads

end Flow.Pipeline

namespace Flow.Lowering

variable {f : Forest} {o : Outputs}

theorem Laid.stepsPast (valid : f.WellFormed) (laid : Laid f views v p o) :
    f.stepsPast o.raw o.main = p.late.map Prod.snd ++ [Pipeline.mainStep v] := by
  have split := valid.route_past laid.below
  rw [laid.behind] at split
  exact (List.append_cancel_left split).symm

theorem Laid.step_raw (valid : f.WellFormed) (laid : Laid f views v p o) :
    f.step o.raw = Pipeline.rawStep v := by
  obtain ⟨w, _, route⟩ := laid.route
  have whole : f.route o.raw ++ (p.late.map Prod.snd ++ [Pipeline.mainStep v]) =
      (.source w.data :: p.early.map Prod.snd) ++ [Pipeline.rawStep v] ++
        (p.late.map Prod.snd ++ [Pipeline.mainStep v]) := by
    rw [← laid.behind, route]
    simp [Pipeline.steps]
  exact valid.step_of_route (List.append_cancel_right whole)

theorem Laid.exists_aggregate (valid : f.WellFormed) (laid : Laid f views v p o)
    (found : Pipeline.ofView registry index v = .ok p)
    (measured : ∃ d ∈ v.encoding.values, d.aggregate.isSome = true) :
    ∃ x, f.parent? o.main = some x ∧
      f.step x = .aggregate (v.encoding.values.flatMap Pipeline.groupFields)
        (v.encoding.values.filterMap Pipeline.measure?) ∧
      (f.route o.main).filter Step.isAggregate = [f.step x] := by
  obtain ⟨w, _, route⟩ := laid.route
  have alone := Pipeline.filter_isAggregate found w.data
  rw [← route] at alone
  obtain ⟨own, encoded, _, _, rfl⟩ := Pipeline.ofView_spec found
  have behind := laid.behind.trans (List.append_assoc ..).symm
  obtain ⟨plain, _⟩ | ⟨_, one⟩ := Pipeline.aggregateSteps_cases v
  · obtain ⟨d, listed, aggregated⟩ := measured
    simp [plain d listed] at aggregated
  · rw [List.map_append, one, ← List.append_assoc] at behind
    obtain ⟨x, named⟩ := Option.isSome_iff_exists.mp (valid.placed_of_route behind (by simp))
    have above := valid.route_under named
    rw [behind, valid.step_of_route behind] at above
    have step := valid.step_of_route (List.append_cancel_right above).symm
    exact ⟨x, named, step, by rw [alone, one, step]; rfl⟩

end Flow.Lowering

-- What stands at the outputs of a view, and between them. An encoding that aggregates is not binned, even where
-- it asks for bins, and there are no bins but those of the encodings. What the encodings read is there for any
-- rows that have the fields they are bound to.
structure UnitView.Served (v : UnitView) (f : Forest) (o : Outputs) : Prop where
  raw : f.step o.raw = Pipeline.rawStep v
  main : f.step o.main = Pipeline.mainStep v
  below : Flow.Above f.parent? o.raw o.main
  supplied : ∀ d ∈ v.encoding.values, ∀ field, d.field = some field → d.aggregate = none →
    d.Supplied field (f.stepsPast o.raw o.main)
  bins : ∀ field start stop maxBins, .bin field start stop maxBins ∈ f.stepsPast o.raw o.main →
    ∃ d ∈ v.encoding.values, d.field = some field ∧ d.aggregate = none ∧ d.bin = true ∧
      start = d.outputField ∧ stop = binEnd d.outputField
  aggregated : (∃ d ∈ v.encoding.values, d.aggregate.isSome = true) →
    ∃ x groupBy measures, f.parent? o.main = some x ∧ f.step x = .aggregate groupBy measures ∧
      (f.route o.main).filter Step.isAggregate = [.aggregate groupBy measures] ∧
      v.Gathered (f.stepsPast o.raw o.main) groupBy measures
  there : ∀ before : List String,
    (∀ d ∈ v.encoding.values, ∀ field, d.field = some field → d.aggregate = none → field ∈ before) →
    ∀ d ∈ v.encoding.values, d.field.isSome = true ∨ d.aggregate.isSome = true →
      d.outputField ∈ Flow.columnsPast before (f.stepsPast o.raw o.main)

-- Whatever else is laid down before and behind it, a view has outputs of its own at which its encodings are
-- served.
theorem addViews_serves
    (laid : Lowering.empty.addViews registry index views = .ok (l, outputs)) :
    List.Forall₂ (fun v o => v.Served l.forest o) views outputs := by
  obtain ⟨strands, _, _, _, every⟩ := Lowering.addViews_spec (.empty _) .empty laid
  refine every.imp ?_
  rintro v o ⟨p, found, here⟩
  have valid := strands.valid
  have past := here.stepsPast valid
  have aggregate := here.exists_aggregate valid found
  have main := valid.step_of_route (here.behind.trans (List.append_assoc ..).symm)
  have raw := here.step_raw valid
  have below := here.below
  obtain ⟨own, encoded, _, encodes, rfl⟩ := Pipeline.ofView_spec found
  have sub : encoded.map Prod.snd ⊆ l.forest.stepsPast o.raw o.main := by
    rw [past, List.map_append, List.append_assoc]
    exact List.subset_append_left ..
  have bins : ∀ field start stop maxBins, .bin field start stop maxBins ∈ l.forest.stepsPast o.raw o.main →
      .bin field start stop maxBins ∈ encoded.map Prod.snd := by
    intro field start stop maxBins member
    exact Pipeline.bin_of_late (past ▸ member)
  refine ⟨raw, main, below, ?_, ?_, ?_, ?_⟩
  · intro d listed field present plain
    exact (Pipeline.supplied encodes listed present plain).weaken sub
  · intro field start stop maxBins member
    exact Pipeline.exists_of_bin encodes (bins _ _ _ _ member)
  · intro measured
    obtain ⟨x, named, step, alone⟩ := aggregate measured
    exact ⟨x, _, _, named, step, step ▸ alone, Pipeline.gathered encodes sub bins⟩
  · intro before had d listed asked
    rw [past]
    exact Pipeline.mem_columnsPast_late encodes had listed asked

def surveyed : UnitView :=
  { name := "cars", data := .remote "cars.json" none, transform := [], selection := .empty, mark := "point"
    encoding := (((Keyed.empty.put .x ⟨some "miles", .quantitative, none, true, none, none⟩).put .y
      ⟨some "date", .temporal, none, false, some "year", none⟩).put .color
      ⟨some "origin", .nominal, none, false, none, none⟩).put .size
      ⟨some "weight", .quantitative, some "mean", false, none, none⟩ }

theorem surveyed_values : surveyed.encoding.values =
    [⟨some "miles", .quantitative, none, true, none, none⟩,
      ⟨some "date", .temporal, none, false, some "year", none⟩,
      ⟨some "origin", .nominal, none, false, none, none⟩,
      ⟨some "weight", .quantitative, some "mean", false, none, none⟩] := rfl

theorem addViews_serves_surveyed :
    ∃ l o, Lowering.empty.addViews .builtIn .empty [surveyed] = .ok (l, [o]) ∧
      .bin "miles" "bin_maxbins_10_miles" "bin_maxbins_10_miles_end" 10 ∈ l.forest.stepsPast o.raw o.main ∧
      "mean_weight" ∈ Flow.columnsPast ["miles", "date", "origin"] (l.forest.stepsPast o.raw o.main) := by
  have lays : (Lowering.empty.addViews .builtIn .empty [surveyed]).toOption.map
      (fun r => r.2.length) = some 1 := by decide +kernel
  obtain ⟨⟨l, outputs⟩, laid, one⟩ := Forest.exists_ok lays
  obtain ⟨o, rfl⟩ := List.length_eq_one_iff.mp one
  obtain ⟨served, _⟩ := List.forall₂_cons.mp (addViews_serves laid)
  have miles : ⟨some "miles", .quantitative, none, true, none, none⟩ ∈ surveyed.encoding.values := by
    simp [surveyed_values]
  have weight : ⟨some "weight", .quantitative, some "mean", false, none, none⟩ ∈
      surveyed.encoding.values := by simp [surveyed_values]
  refine ⟨l, o, laid, (served.supplied _ miles _ rfl rfl).binned rfl, ?_⟩
  exact served.there ["miles", "date", "origin"] (by simp [surveyed_values]) _ weight (.inl rfl)

end Viewflow
