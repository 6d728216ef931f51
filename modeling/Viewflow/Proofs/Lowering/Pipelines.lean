import Viewflow.Flow.Pipeline
import Viewflow.Proofs.Forest.Strands

namespace Viewflow

variable {α κ ν : Type} [DecidableEq κ]

theorem bind_eq_ok {ε β : Type} {a : Except ε α} {k : α → Except ε β} {b : β}
    (done : (a >>= k) = .ok b) : ∃ x, a = .ok x ∧ k x = .ok b := by
  cases a with
  | error _ => cases done
  | ok x => exact ⟨x, rfl, done⟩

theorem forall₂_of_mapM {ε β : Type} {f : α → Except ε β} {as : List α} {bs : List β}
    (done : as.mapM f = .ok bs) : List.Forall₂ (fun a b => f a = .ok b) as bs := by
  induction as generalizing bs with
  | nil =>
    cases done
    exact .nil
  | cons a as ih =>
    rw [List.mapM_cons] at done
    obtain ⟨b, first, done⟩ := bind_eq_ok done
    obtain ⟨rest, others, done⟩ := bind_eq_ok done
    cases done
    exact .cons first (ih others)

theorem forall₂_exists {β : Type} {R : α → β → Prop} {as : List α} {bs : List β} {b : β}
    (related : List.Forall₂ R as bs) (member : b ∈ bs) : ∃ a ∈ as, R a b := by
  induction related with
  | nil => cases member
  | cons here _ ih =>
    rcases List.mem_cons.mp member with rfl | later
    · exact ⟨_, List.mem_cons_self .., here⟩
    · obtain ⟨a, listed, there⟩ := ih later
      exact ⟨a, List.mem_cons_of_mem _ listed, there⟩

theorem Keyed.mem_keys_putNew {m : Keyed κ ν} {key k : κ} {value : ν}
    (member : k ∈ (m.putNew key value).keys) : k ∈ m.keys ∨ k = key := by
  unfold Keyed.putNew at member
  split at member
  · exact .inl member
  · rw [Keyed.keys_put] at member
    split at member
    · exact .inl member
    · simpa using member

theorem Keyed.mem_keys_putNews {m : Keyed κ ν} {entries : List (κ × ν)} {k : κ}
    (member : k ∈ (entries.foldl (fun m entry => m.putNew entry.1 entry.2) m).keys) :
    k ∈ m.keys ∨ k ∈ entries.map Prod.fst := by
  induction entries generalizing m with
  | nil => exact .inl member
  | cons entry entries ih =>
    rcases ih member with old | later
    · rcases Keyed.mem_keys_putNew old with old | rfl
      · exact .inl old
      · exact .inr (List.mem_cons_self ..)
    · exact .inr (List.mem_cons_of_mem _ later)

theorem Distinct.mem_ofList [DecidableEq α] {as : List α} {x : α} : x ∈ (Distinct.ofList as).toList ↔ x ∈ as := by
  have grown : ∀ s : Distinct α, x ∈ (as.foldl Distinct.insert s).toList ↔ x ∈ s.toList ∨ x ∈ as := by
    induction as with
    | nil => simp
    | cons a as ih =>
      intro s
      rw [List.foldl_cons, ih, Distinct.mem_insert, List.mem_cons, or_assoc]
  unfold Distinct.ofList
  simpa [Distinct.empty] using grown .empty

theorem Distinct.isDisjoint_iff [DecidableEq α] {a b : Distinct α} :
    a.isDisjoint b = true ↔ ∀ x ∈ a.toList, x ∉ b.toList := by
  simp [Distinct.isDisjoint]

namespace Flow

def Step.isPlain (s : Step) : Bool := !s.isSource && !s.isParse && !s.isOutput

theorem Step.isPlain_iff {s : Step} :
    s.isPlain = true ↔ s.isSource = false ∧ s.isParse = false ∧ s.isOutput = false := by
  simp [Step.isPlain, and_assoc]

theorem Step.letsPass_of_not_parse {upper lower : Step} (other : lower.isParse = false) :
    upper.LetsPass lower := by
  intro parse
  rw [other] at parse
  cases parse

namespace Pipeline

variable {registry : Registry} {index : Index} {v : UnitView} {p : Pipeline}
  {own encoded : List NamedStep} {s : NamedStep}

theorem mem_calculatedFields {field : String} :
    field ∈ v.calculatedFields ↔ ∃ expression, .calculate expression field ∈ v.transform := by
  simp only [UnitView.calculatedFields, List.mem_filterMap]
  constructor
  · rintro ⟨t, member, found⟩
    cases t with
    | calculate expression into =>
      cases found
      exact ⟨expression, member⟩
    | filter _ => cases found
  · rintro ⟨expression, member⟩
    exact ⟨_, member, rfl⟩

theorem coercions_not_calculated {field : String} (member : field ∈ (coercions v).keys) :
    field ∉ v.calculatedFields := by
  rcases Keyed.mem_keys_putNews member with none | some
  · cases none
  · obtain ⟨entry, found, rfl⟩ := List.mem_map.mp some
    obtain ⟨d, _, coerced⟩ := List.mem_filterMap.mp found
    unfold coerced? at coerced
    obtain ⟨field, _, coerced⟩ := Option.bind_eq_some_iff.mp coerced
    split at coerced
    · cases coerced
    · next free =>
      obtain ⟨_, _, same⟩ := Option.bind_eq_some_iff.mp coerced
      cases same
      simp only [Bool.or_eq_true, List.contains_iff_mem, not_or] at free
      exact free.1

theorem transformStep_spec {t : TransformDef} (found : transformStep registry index t = .ok s) :
    s.2.isPlain = true ∧
      ∀ field ∈ s.2.produced.toList, ∃ expression, t = .calculate expression field := by
  cases t with
  | calculate expression into =>
    cases found
    refine ⟨rfl, fun field member => ⟨expression, ?_⟩⟩
    rw [List.mem_singleton.mp member]
  | filter filter =>
    obtain ⟨text, _, found⟩ := bind_eq_ok found
    cases found
    exact ⟨rfl, fun field member => by cases member⟩

theorem own_spec (found : v.transform.mapM (transformStep registry index) = .ok own) :
    ∀ s ∈ own, s.2.isPlain = true ∧ ∀ field ∈ s.2.produced.toList, field ∈ v.calculatedFields := by
  intro s member
  obtain ⟨t, asked, made⟩ := forall₂_exists (forall₂_of_mapM found) member
  obtain ⟨plain, makes⟩ := transformStep_spec made
  refine ⟨plain, ?_⟩
  intro field produced
  obtain ⟨expression, rfl⟩ := makes field produced
  exact mem_calculatedFields.mpr ⟨expression, asked⟩

theorem encodingSteps_cases {d : FieldDef} (found : encodingSteps d = .ok encoded) :
    (∃ field, d.field = some field ∧ d.aggregate = none ∧ d.bin = true ∧
      encoded = [("bin", .bin field (binField field) (binEnd (binField field)) defaultMaxBins)]) ∨
    (∃ field unit, d.field = some field ∧ d.aggregate = none ∧ d.bin = false ∧ d.timeUnit = some unit ∧
      TimeUnit.isKnown unit = true ∧ encoded = [("timeunit", .timeUnit field unit d.outputField)]) ∨
    (∀ field, d.field = some field → d.aggregate = none → d.bin = false ∧ d.timeUnit = none) ∧
      encoded = [] := by
  unfold encodingSteps at found
  split at found
  · next field present plain =>
    cases binned : d.bin with
    | true =>
      simp only [binned, if_true] at found
      cases found
      exact .inl ⟨field, present, plain, rfl, rfl⟩
    | false =>
      simp only [binned, Bool.false_eq_true, if_false] at found
      split at found
      · next unit asked =>
        split at found
        · next known =>
          cases found
          exact .inr (.inl ⟨field, unit, present, plain, rfl, asked, known, rfl⟩)
        · cases found
      · next none =>
        cases found
        exact .inr (.inr ⟨fun _ _ _ => ⟨rfl, none⟩, rfl⟩)
  · next other =>
    cases found
    exact .inr (.inr ⟨fun field present plain => absurd plain (other field present), rfl⟩)

theorem eachEncodingSteps_spec {ds : List FieldDef} (found : eachEncodingSteps ds = .ok encoded) :
    ∃ parts, List.Forall₂ (fun d part => encodingSteps d = .ok part) ds parts ∧ encoded = parts.flatten := by
  induction ds generalizing encoded with
  | nil =>
    cases found
    exact ⟨[], .nil, rfl⟩
  | cons d ds ih =>
    obtain ⟨part, first, found⟩ := bind_eq_ok found
    obtain ⟨others, rest, found⟩ := bind_eq_ok found
    cases found
    obtain ⟨parts, every, rfl⟩ := ih rest
    exact ⟨part :: parts, .cons first every, rfl⟩

theorem eachEncodingSteps_shape {ds : List FieldDef} (found : eachEncodingSteps ds = .ok encoded) :
    ∀ s ∈ encoded, (∃ field start stop maxBins, s.2 = .bin field start stop maxBins) ∨
      ∃ field unit into, s.2 = .timeUnit field unit into := by
  intro s member
  obtain ⟨parts, every, rfl⟩ := eachEncodingSteps_spec found
  obtain ⟨part, listed, inside⟩ := List.mem_flatten.mp member
  obtain ⟨d, _, made⟩ := forall₂_exists every listed
  obtain ⟨field, _, _, _, rfl⟩ | ⟨field, unit, _, _, _, _, _, rfl⟩ | ⟨_, rfl⟩ := encodingSteps_cases made
  · exact .inl ⟨_, _, _, _, congrArg Prod.snd (List.mem_singleton.mp inside)⟩
  · exact .inr ⟨_, _, _, congrArg Prod.snd (List.mem_singleton.mp inside)⟩
  · cases inside

theorem eachEncodingSteps_plain {ds : List FieldDef} (found : eachEncodingSteps ds = .ok encoded) :
    ∀ s ∈ encoded, s.2.isPlain = true := by
  intro s member
  obtain ⟨_, _, _, _, shape⟩ | ⟨_, _, _, shape⟩ := eachEncodingSteps_shape found s member <;>
    rw [shape] <;> rfl

theorem identifierSteps_plain (index : Index) (v : UnitView) :
    ∀ s ∈ identifierSteps index v, s.2.isPlain = true := by
  intro s member
  unfold identifierSteps at member
  split at member
  · rw [List.mem_singleton.mp member]
    rfl
  · cases member

theorem aggregateSteps_cases (v : UnitView) :
    ((∀ d ∈ v.encoding.values, d.aggregate = none) ∧ aggregateSteps v = []) ∨
      (∃ d ∈ v.encoding.values, d.aggregate.isSome = true) ∧ aggregateSteps v =
        [("aggregate", .aggregate (v.encoding.values.flatMap groupFields)
          (v.encoding.values.filterMap measure?))] := by
  unfold aggregateSteps
  simp only
  split
  · next none =>
    refine .inl ⟨fun d listed => ?_, rfl⟩
    rw [List.isEmpty_iff, List.filterMap_eq_nil_iff] at none
    simpa [measure?] using none d listed
  · next some =>
    refine .inr ⟨?_, rfl⟩
    rw [List.isEmpty_iff, List.filterMap_eq_nil_iff] at some
    simpa [measure?, Option.isSome_iff_ne_none] using some

theorem aggregateSteps_plain (v : UnitView) : ∀ s ∈ aggregateSteps v, s.2.isPlain = true := by
  intro s member
  obtain ⟨_, none⟩ | ⟨_, one⟩ := aggregateSteps_cases v
  · rw [none] at member
    cases member
  · rw [one, List.mem_singleton] at member
    rw [member]
    rfl

theorem mem_coercionSteps (member : s ∈ coercionSteps v) : s.2 = .parse (coercions v) := by
  unfold coercionSteps at member
  simp only at member
  split at member
  · cases member
  · rw [List.mem_singleton.mp member]

theorem ofView_spec (found : ofView registry index v = .ok p) :
    ∃ own encoded, v.transform.mapM (transformStep registry index) = .ok own ∧
      eachEncodingSteps v.encoding.values = .ok encoded ∧
      p = ⟨own ++ coercionSteps v ++ identifierSteps index v, encoded ++ aggregateSteps v⟩ := by
  obtain ⟨own, first, found⟩ := bind_eq_ok found
  obtain ⟨encoded, second, found⟩ := bind_eq_ok found
  cases found
  exact ⟨own, encoded, first, second, rfl⟩

def rawStep (v : UnitView) : Step := .output (.fresh (v.unitName ++ "_raw") .raw)

def mainStep (v : UnitView) : Step := .output (.fresh (v.unitName ++ "_main") .main)

def steps (v : UnitView) (data : DataRef) (p : Pipeline) : List Step :=
  .source data :: (p.early.map Prod.snd ++ rawStep v :: p.late.map Prod.snd ++ [mainStep v])

theorem pairwise_of_not_parse {steps : List Step} (others : ∀ s ∈ steps, s.isParse = false) :
    steps.Pairwise Step.LetsPass :=
  List.pairwise_of_forall_mem_list fun _ _ lower member =>
    Step.letsPass_of_not_parse (others lower member)

theorem early_shape (found : ofView registry index v = .ok p) :
    ∀ s ∈ p.early, (∃ expression into, s.2 = .formula expression into) ∨
      (∃ text fields, s.2 = .filter text fields) ∨ s.2 = .parse (coercions v) ∨ s.2 = .identifier := by
  obtain ⟨own, encoded, made, _, rfl⟩ := ofView_spec found
  intro s member
  rcases List.mem_append.mp member with member | identifier
  · rcases List.mem_append.mp member with asked | coerces
    · obtain ⟨t, _, made⟩ := forall₂_exists (forall₂_of_mapM made) asked
      cases t with
      | calculate expression into =>
        cases made
        exact .inl ⟨_, _, rfl⟩
      | filter filter =>
        obtain ⟨text, _, made⟩ := bind_eq_ok made
        cases made
        exact .inr (.inl ⟨_, _, rfl⟩)
    · exact .inr (.inr (.inl (mem_coercionSteps coerces)))
  · unfold identifierSteps at identifier
    split at identifier
    · rw [List.mem_singleton.mp identifier]
      exact .inr (.inr (.inr rfl))
    · cases identifier

theorem early_plain (found : ofView registry index v = .ok p) :
    ∀ s ∈ p.early, s.2.isSource = false ∧ s.2.isOutput = false := by
  intro s member
  obtain ⟨_, _, shape⟩ | ⟨_, _, shape⟩ | shape | shape := early_shape found s member <;>
    rw [shape] <;> exact ⟨rfl, rfl⟩

theorem late_plain (found : ofView registry index v = .ok p) : ∀ s ∈ p.late, s.2.isPlain = true := by
  obtain ⟨own, encoded, _, encodes, rfl⟩ := ofView_spec found
  intro s member
  rcases List.mem_append.mp member with encoding | aggregate
  · exact eachEncodingSteps_plain encodes s encoding
  · exact aggregateSteps_plain v s aggregate

-- A view coerces no field that it computes itself.
theorem letsPass_coercion (data : DataRef)
    (made : v.transform.mapM (transformStep registry index) = .ok own) :
    ∀ upper ∈ Step.source data :: own.map Prod.snd, upper.LetsPass (.parse (coercions v)) := by
  intro upper member _
  have none : ∀ {s : Step}, (∀ field ∈ s.produced.toList, field ∈ v.calculatedFields) →
      (Step.parse (coercions v)).dependent.isDisjoint s.produced = true := by
    intro s computed
    apply Distinct.isDisjoint_iff.mpr
    intro field coerced produced
    exact coercions_not_calculated (Distinct.mem_ofList.mp coerced) (computed field produced)
  rcases List.mem_cons.mp member with rfl | later
  · refine ⟨rfl, none ?_⟩
    intro field produced
    cases produced
  · obtain ⟨s, asked, rfl⟩ := List.mem_map.mp later
    obtain ⟨plain, computed⟩ := own_spec made s asked
    exact ⟨(Step.isPlain_iff.mp plain).2.1, none computed⟩

def after (index : Index) (v : UnitView) (encoded : List NamedStep) : List Step :=
  (identifierSteps index v).map Prod.snd ++ rawStep v ::
    (encoded ++ aggregateSteps v).map Prod.snd ++ [mainStep v]

theorem before_not_parse (data : DataRef)
    (made : v.transform.mapM (transformStep registry index) = .ok own) :
    ∀ s ∈ Step.source data :: own.map Prod.snd, s.isParse = false := by
  intro s member
  rcases List.mem_cons.mp member with rfl | later
  · rfl
  · obtain ⟨s, asked, rfl⟩ := List.mem_map.mp later
    exact (Step.isPlain_iff.mp (own_spec made s asked).1).2.1

theorem after_not_parse (index : Index)
    (encodes : eachEncodingSteps v.encoding.values = .ok encoded) :
    ∀ s ∈ after index v encoded, s.isParse = false := by
  intro s member
  have plain : ∀ s : NamedStep, s.2.isPlain = true → s.2.isParse = false := fun s plain =>
    (Step.isPlain_iff.mp plain).2.1
  simp only [after, List.mem_append, List.mem_cons, List.mem_map, List.not_mem_nil, or_false]
    at member
  rcases member with (⟨s, identifier, rfl⟩ | rfl | ⟨s, encoding | aggregate, rfl⟩) | rfl
  · exact plain s (identifierSteps_plain index v s identifier)
  · rfl
  · exact plain s (eachEncodingSteps_plain encodes s encoding)
  · exact plain s (aggregateSteps_plain v s aggregate)
  · rfl

-- A view has one coercion, or none, between its own transforms and everything else.
theorem steps_spec (found : ofView registry index v = .ok p) (data : DataRef) :
    ∃ own encoded, v.transform.mapM (transformStep registry index) = .ok own ∧
      eachEncodingSteps v.encoding.values = .ok encoded ∧
      steps v data p = (.source data :: own.map Prod.snd) ++ ((coercionSteps v).map Prod.snd ++
        after index v encoded) := by
  obtain ⟨own, encoded, made, encodes, rfl⟩ := ofView_spec found
  exact ⟨own, encoded, made, encodes, by simp [steps, after]⟩

theorem steps_pairwise (found : ofView registry index v = .ok p) (data : DataRef) :
    (steps v data p).Pairwise Step.LetsPass := by
  obtain ⟨own, encoded, made, encodes, ordered⟩ := steps_spec found data
  have late := after_not_parse index encodes
  have coerces : ∀ s ∈ (coercionSteps v).map Prod.snd, s = .parse (coercions v) := by
    intro s member
    obtain ⟨s, listed, rfl⟩ := List.mem_map.mp member
    exact mem_coercionSteps listed
  rw [ordered, List.pairwise_append]
  refine ⟨pairwise_of_not_parse (before_not_parse data made), List.pairwise_append.mpr
    ⟨?_, pairwise_of_not_parse late, fun _ _ lower member =>
      Step.letsPass_of_not_parse (late lower member)⟩, ?_⟩
  · unfold coercionSteps
    simp only
    split <;> simp
  · intro upper member lower member'
    rcases List.mem_append.mp member' with coercion | later
    · rw [coerces lower coercion]
      exact letsPass_coercion data made upper member
    · exact Step.letsPass_of_not_parse (late lower later)

end Pipeline
end Flow
end Viewflow
