import Viewflow.Proofs.Lowering.Aggregates
import Viewflow.Proofs.Lowering.Views
import Viewflow.Proofs.Text.Identifiers
import Viewflow.Selection.Brush

namespace Viewflow
open Viewflow.Flow (Forest Lowering Measure Outputs Pipeline Step)

variable {registry : Registry} {index : Index} {v : UnitView} {p : Pipeline} {views : List UnitView}
  {outputs : List Outputs} {l : Lowering} {d : FieldDef} {groupBy : List String} {measures : List Measure}

inductive Column where
  | raw (field : String)
  | lower (field : String)
  | upper (field : String)
  | truncated (unit field : String)
  | count
  | measured (op : String) (field : Option String)
deriving DecidableEq

namespace Column

variable {c c' : Column} {stem rest : String}

def name : Column → String
  | .raw field => field
  | .lower field => binField field
  | .upper field => binEnd (binField field)
  | .truncated unit field => Text.identifier (unit ++ "_" ++ field)
  | .count => "count_*"
  | .measured op field => Text.identifier (op ++ "_" ++ field.getD "*")

def measure? : Column → Option Measure
  | .count => some ⟨"count", none, name .count⟩
  | .measured op field => some ⟨op, field, name (.measured op field)⟩
  | _ => none

def binStem : String := "bin_maxbins_" ++ toString defaultMaxBins

def parts? : Column → Option (String × String)
  | .raw _ | .count => none
  | .lower field => some (binStem, Text.softened field)
  | .upper field => some (binStem, binEnd (Text.softened field))
  | .truncated unit field => some (Text.identifier unit, Text.softened field)
  | .measured op field => some (Text.identifier op, Text.softened (field.getD "*"))

theorem binField_parts (field : String) : binField field = binStem ++ "_" ++ Text.softened field := by
  have safe : Text.identifier binStem = binStem := by decide +kernel
  have split := Text.identifier_underscore binStem field
  rwa [safe] at split

theorem name_of_parts (made : c.parts? = some (stem, rest)) : c.name = stem ++ "_" ++ rest := by
  cases c with
  | raw field => cases made
  | lower field =>
    cases made
    exact binField_parts field
  | upper field =>
    cases made
    rw [name, binField_parts, binEnd, binEnd, String.append_assoc]
  | truncated unit field =>
    cases made
    exact Text.identifier_underscore unit field
  | count => cases made
  | measured op field =>
    cases made
    exact Text.identifier_underscore op _

theorem name_safe (made : c.parts?.isSome = true) : Text.identifier c.name = c.name := by
  cases c with
  | raw field => cases made
  | lower field => exact Text.identifier_identifier _
  | upper field =>
    have split : name (.upper field) = binField field ++ "_" ++ "end" := by
      rw [name, binEnd, String.append_assoc]
      rfl
    have ending : Text.softened "end" = "end" := by decide +kernel
    rw [split, Text.identifier_underscore, binField, Text.identifier_identifier, ending]
  | truncated unit field => exact Text.identifier_identifier _
  | count => cases made
  | measured op field => exact Text.identifier_identifier _

theorem name_ne_count (made : c.parts?.isSome = true) : c.name ≠ name .count := by
  intro same
  have safe := name_safe made
  rw [same] at safe
  exact absurd safe (by decide +kernel)

theorem kinds (c : Column) : c = .raw c.name ∨ c = .count ∨ c.parts?.isSome = true := by
  cases c <;> simp [name, parts?]

-- The first part of one name goes on over the underscore of the other.
def Overlaps (c c' : Column) : Prop :=
  ∃ stem rest stem' rest' more, c.parts? = some (stem, rest) ∧ c'.parts? = some (stem', rest') ∧
    stem = stem' ++ "_" ++ more ∧ rest' = more ++ "_" ++ rest

theorem name_eq_iff (made : c.parts?.isSome = true) (made' : c'.parts?.isSome = true) :
    c.name = c'.name ↔ c.parts? = c'.parts? ∨ c.Overlaps c' ∨ c'.Overlaps c := by
  obtain ⟨⟨stem, rest⟩, parts⟩ := Option.isSome_iff_exists.mp made
  obtain ⟨⟨stem', rest'⟩, parts'⟩ := Option.isSome_iff_exists.mp made'
  rw [name_of_parts parts, name_of_parts parts', Text.underscore_eq_iff]
  simp [Overlaps, parts, parts']

theorem Overlaps.name_eq (overlaps : c.Overlaps c') : c.name = c'.name := by
  obtain ⟨_, _, _, _, _, parts, parts', rfl, rfl⟩ := overlaps
  rw [name_of_parts parts, name_of_parts parts']
  simp only [String.append_assoc]

theorem Overlaps.irrefl : ¬ c.Overlaps c := by
  rintro ⟨stem, rest, stem', rest', more, parts, parts', longer, _⟩
  rw [parts] at parts'
  cases parts'
  exact Text.ne_underscore stem more longer

end Column

def FieldDef.grouped (d : FieldDef) : List Column :=
  match d.field, d.aggregate with
  | some field, none =>
    if d.bin then [.lower field, .upper field]
    else match d.timeUnit with
      | some unit => [.truncated unit field]
      | none => [.raw field]
  | _, _ => []

def FieldDef.measured? (d : FieldDef) : Option Column :=
  d.aggregate.map fun op => if op = "count" then .count else .measured op d.field

theorem FieldDef.groupFields_eq (d : FieldDef) : Pipeline.groupFields d = d.grouped.map Column.name := by
  unfold Pipeline.groupFields grouped
  cases present : d.field with
  | none => simp
  | some field =>
    cases plain : d.aggregate with
    | some op => simp
    | none =>
      cases binned : d.bin with
      | true => simp [outputField, present, plain, binned, Column.name]
      | false =>
        cases truncated : d.timeUnit with
        | none => simp [outputField, present, plain, binned, truncated, Column.name]
        | some unit => simp [outputField, present, plain, binned, truncated, Column.name]

theorem FieldDef.measure?_eq (d : FieldDef) : Pipeline.measure? d = d.measured?.bind Column.measure? := by
  unfold Pipeline.measure? measured?
  cases asked : d.aggregate with
  | none => rfl
  | some op =>
    by_cases counts : op = "count"
    · simp [outputField, asked, counts, Column.measure?, Column.name]
    · simp [outputField, asked, counts, Column.measure?, Column.name]

namespace UnitView

def grouped (v : UnitView) : List Column := v.encoding.values.flatMap FieldDef.grouped

def measured (v : UnitView) : List Column := v.encoding.values.filterMap FieldDef.measured?

def columns (v : UnitView) : List Column := v.grouped ++ v.measured

def ColumnsApart (v : UnitView) : Prop :=
  ∀ c ∈ v.columns, ∀ c' ∈ v.columns, c.name = c'.name → c = c'

def RawApart (v : UnitView) : Prop := ∀ c ∈ v.columns, .raw c.name ∈ v.columns → c = .raw c.name

def PartsApart (v : UnitView) : Prop :=
  ∀ c ∈ v.columns, ∀ c' ∈ v.columns, c.parts?.isSome = true → c.parts? = c'.parts? → c = c'

def Unsplit (v : UnitView) : Prop := ∀ c ∈ v.columns, ∀ c' ∈ v.columns, ¬ c.Overlaps c'

theorem RawApart.eq (apart : v.RawApart) {c c' : Column} (listed : c ∈ v.columns) (listed' : c' ∈ v.columns)
    (taken : c = .raw c.name) (same : c.name = c'.name) : c = c' := by
  rw [taken, same] at listed
  rw [taken, same]
  exact (apart c' listed' listed).symm

theorem columnsApart_iff (v : UnitView) : v.ColumnsApart ↔ v.RawApart ∧ v.PartsApart ∧ v.Unsplit := by
  constructor
  · intro apart
    refine ⟨?_, ?_, ?_⟩
    · exact fun c listed raw => apart c listed _ raw rfl
    · intro c listed c' listed' made same
      exact apart c listed c' listed' ((Column.name_eq_iff made (same ▸ made)).mpr (.inl same))
    · intro c listed c' listed' overlaps
      have one := apart c listed c' listed' overlaps.name_eq
      subst one
      exact Column.Overlaps.irrefl overlaps
  · rintro ⟨raw, parts, unsplit⟩ c listed c' listed' same
    rcases c.kinds with taken | kind
    · exact raw.eq listed listed' taken same
    rcases c'.kinds with taken' | kind'
    · exact (raw.eq listed' listed taken' same.symm).symm
    -- What is left is the count, under a name that nothing made up can have, and what is made up.
    rcases kind with rfl | made
    · rcases kind' with rfl | made'
      · rfl
      · exact absurd same.symm (Column.name_ne_count made')
    · rcases kind' with rfl | made'
      · exact absurd same (Column.name_ne_count made)
      · rcases (Column.name_eq_iff made made').mp same with equal | overlaps | overlaps
        · exact parts c listed c' listed' made equal
        · exact absurd overlaps (unsplit c listed c' listed')
        · exact absurd overlaps (unsplit c' listed' c listed)

end UnitView

-- A name of letters and digits that does not pass for the beginning of a bin's.
def IsWord (s : String) : Prop := '_' ∉ (Text.identifier s).toList ∧ Text.identifier s ≠ "bin"

instance (s : String) : Decidable (IsWord s) := inferInstanceAs (Decidable (_ ∧ _))

def isLetter (c : Char) : Bool := Text.isIdentifierChar c && !c.isDigit && c != '_'

theorem isWord_of_letters {s : String} (letters : ∀ c ∈ s.toList, isLetter c = true) (other : s ≠ "bin") :
    IsWord s := by
  have parts : ∀ c ∈ s.toList, Text.isIdentifierChar c = true ∧ c.isDigit = false ∧ c ≠ '_' := by
    intro c member
    simpa [isLetter, and_assoc] using letters c member
  have safe : Text.identifier s = s :=
    Text.identifier_eq_iff.mpr ⟨fun c member => (parts c member).1,
      fun c head => (parts c (List.mem_of_mem_head? head)).2.1⟩
  unfold IsWord
  rw [safe]
  exact ⟨fun inside => (parts '_' inside).2.2 rfl, other⟩

theorem TimeUnit.isWord {unit : String} (known : TimeUnit.isKnown unit = true) : IsWord unit := by
  have every : all.all (fun unit => unit.toList.all isLetter) = true := by decide +kernel
  have letters : ∀ unit ∈ all, ∀ c ∈ unit.toList, isLetter c = true := fun unit listed =>
    List.all_eq_true.mp (List.all_eq_true.mp every unit listed)
  unfold isKnown at known
  split at known
  · next utc =>
    have listed := letters _ (List.contains_iff_mem.mp known)
    obtain ⟨rest, split⟩ := List.isPrefixOf_iff_prefix.mp utc
    rw [← split, List.drop_left, String.toList_ofList] at listed
    apply isWord_of_letters
    · intro c member
      rw [← split] at member
      rcases List.mem_append.mp member with mark | other
      · exact List.all_eq_true.mp (by decide : utcMark.all isLetter = true) c mark
      · exact listed c other
    · rintro rfl
      exact absurd utc (by decide)
  · have listed := List.contains_iff_mem.mp known
    apply isWord_of_letters (letters unit listed)
    rintro rfl
    exact absurd listed (by decide +kernel)

theorem FieldDef.truncated_of_grouped {unit field : String} (listed : .truncated unit field ∈ d.grouped) :
    d.field = some field ∧ d.aggregate = none ∧ d.bin = false ∧ d.timeUnit = some unit := by
  unfold grouped at listed
  split at listed
  · next taken present plain =>
    cases binned : d.bin with
    | true => simp [binned] at listed
    | false =>
      simp only [binned, Bool.false_eq_true, if_false] at listed
      split at listed
      · next asked =>
        cases List.mem_singleton.mp listed
        exact ⟨present, plain, rfl, asked⟩
      · simp at listed
  · cases listed

namespace UnitView

theorem truncated_known (found : Pipeline.ofView registry index v = .ok p) {unit field : String}
    (listed : .truncated unit field ∈ v.columns) : TimeUnit.isKnown unit = true := by
  obtain ⟨_, encoded, _, encodes, _⟩ := Pipeline.ofView_spec found
  obtain ⟨parts, every, _⟩ := Pipeline.eachEncodingSteps_spec encodes
  rcases List.mem_append.mp listed with grouped | measured
  · obtain ⟨d, declared, listed⟩ := List.mem_flatMap.mp grouped
    obtain ⟨present, plain, unbinned, asked⟩ := FieldDef.truncated_of_grouped listed
    obtain ⟨part, _, made⟩ := forall₂_exists every.flip declared
    obtain ⟨_, _, _, binned, _⟩ | ⟨_, other, _, _, _, asked', known, _⟩ | ⟨none, _⟩ :=
      Pipeline.encodingSteps_cases made
    · rw [unbinned] at binned
      cases binned
    · rw [asked] at asked'
      cases asked'
      exact known
    · rw [(none field present plain).2] at asked
      cases asked
  · obtain ⟨d, _, made⟩ := List.mem_filterMap.mp measured
    obtain ⟨op, _, same⟩ := Option.map_eq_some_iff.mp made
    split at same <;> cases same

theorem stem_cases (found : Pipeline.ofView registry index v = .ok p)
    (words : ∀ op field, .measured op field ∈ v.columns → IsWord op) {c : Column} {stem rest : String}
    (listed : c ∈ v.columns) (made : c.parts? = some (stem, rest)) :
    stem = Column.binStem ∨ ('_' ∉ stem.toList ∧ stem ≠ "bin") := by
  cases c with
  | raw field => cases made
  | lower field =>
    cases made
    exact .inl rfl
  | upper field =>
    cases made
    exact .inl rfl
  | truncated unit field =>
    cases made
    exact .inr (TimeUnit.isWord (truncated_known found listed))
  | count => cases made
  | measured op field =>
    cases made
    exact .inr (words op field listed)

theorem unsplit_of_words (found : Pipeline.ofView registry index v = .ok p)
    (words : ∀ op field, .measured op field ∈ v.columns → IsWord op) : v.Unsplit := by
  rintro c listed c' listed' ⟨stem, rest, stem', rest', more, made, made', longer, _⟩
  have inside : '_' ∈ stem.toList := by simp [longer]
  rcases stem_cases found words listed made with rfl | ⟨whole, _⟩
  · rcases stem_cases found words listed' made' with rfl | ⟨whole', other⟩
    · exact Text.ne_underscore _ more longer
    · -- Before the first underscore of a bin's name stands another word.
      have first : "bin" ++ "_" ++ "maxbins_10" = stem' ++ "_" ++ more :=
        (by decide +kernel : "bin" ++ "_" ++ "maxbins_10" = Column.binStem).trans longer
      rcases Text.underscore_eq_iff.mp first with ⟨same, _⟩ | ⟨x, shorter, _⟩ | ⟨x, split, _⟩
      · exact other same.symm
      · have within : '_' ∈ "bin".toList := by simp [shorter]
        exact absurd within (by decide)
      · exact whole' (by simp [split])
  · exact whole inside

end UnitView

namespace Flow.Pipeline

theorem measures_computed (ds : List FieldDef) :
    List.Forall₂ (fun c m => Column.measure? c = some m) (ds.filterMap FieldDef.measured?)
      (ds.filterMap measure?) := by
  induction ds with
  | nil => exact .nil
  | cons d ds ih =>
    have same := d.measure?_eq
    cases asked : d.measured? with
    | none =>
      rw [asked] at same
      rw [List.filterMap_cons_none asked, List.filterMap_cons_none same]
      exact ih
    | some c =>
      obtain ⟨m, computed⟩ : ∃ m, c.measure? = some m := by
        obtain ⟨op, _, rfl⟩ := Option.map_eq_some_iff.mp asked
        split <;> exact ⟨_, rfl⟩
      rw [asked, Option.bind_some, computed] at same
      rw [List.filterMap_cons_some asked, List.filterMap_cons_some same]
      exact .cons computed ih

theorem exists_aggregate (found : ofView registry index v = .ok p) (data : DataRef)
    (asked : v.measured ≠ []) :
    ∃ groupBy measures, .aggregate groupBy measures ∈ steps v data p := by
  obtain ⟨plain, _⟩ | ⟨_, one⟩ := aggregateSteps_cases v
  · have none : v.measured = [] := List.filterMap_eq_nil_iff.mpr fun d listed => by
      simp [FieldDef.measured?, plain d listed]
    exact absurd none asked
  · have kept := filter_isAggregate found data
    rw [one, List.map_singleton] at kept
    exact ⟨_, _, List.mem_of_mem_filter (kept ▸ List.mem_singleton_self _)⟩

theorem aggregate_of_mem_steps (found : ofView registry index v = .ok p) {data : DataRef}
    (member : .aggregate groupBy measures ∈ steps v data p) :
    groupBy = v.grouped.map Column.name ∧
      List.Forall₂ (fun c m => Column.measure? c = some m) v.measured measures := by
  have kept : .aggregate groupBy measures ∈ (steps v data p).filter Step.isAggregate :=
    List.mem_filter.mpr ⟨member, rfl⟩
  rw [filter_isAggregate found] at kept
  obtain ⟨_, none⟩ | ⟨_, one⟩ := aggregateSteps_cases v
  · simp [none] at kept
  · rw [one, List.map_singleton, List.mem_singleton] at kept
    cases kept
    refine ⟨?_, measures_computed _⟩
    rw [UnitView.grouped, List.map_flatMap]
    exact congrArg (v.encoding.values.flatMap ·) (funext FieldDef.groupFields_eq)

end Flow.Pipeline

-- A view with measures aggregates by the columns of its encodings. Where they are computed differently they
-- go by different names exactly where no field taken as it is has the name of another column, and the two
-- parts of a name tell what is computed and are told apart themselves, as they are where operations are words.
theorem aggregate_columns
    (laid : Lowering.empty.addViews registry index views = .ok (l, outputs)) :
    ∀ v o, (v, o) ∈ views.zip outputs →
      (v.measured ≠ [] → ∃ groupBy measures, .aggregate groupBy measures ∈ l.forest.route o.main) ∧
      (∀ groupBy measures, .aggregate groupBy measures ∈ l.forest.route o.main →
        groupBy = v.grouped.map Column.name ∧
          List.Forall₂ (fun c m => Column.measure? c = some m) v.measured measures) ∧
      (v.ColumnsApart ↔ v.RawApart ∧ v.PartsApart ∧ v.Unsplit) ∧
      ((∀ op field, .measured op field ∈ v.columns → IsWord op) → v.Unsplit) := by
  intro v o paired
  obtain ⟨_, _, _, _, every⟩ := Lowering.addViews_spec (.empty _) .empty laid
  obtain ⟨p, found, here⟩ := (List.forall₂_iff_zip.mp every).2 paired
  obtain ⟨w, _, route⟩ := here.route
  rw [route]
  exact ⟨Pipeline.exists_aggregate found w.data, fun _ _ => Pipeline.aggregate_of_mem_steps found,
    v.columnsApart_iff, UnitView.unsplit_of_words found⟩

def averaging (group field : String) : UnitView :=
  { name := "cars", data := .remote "cars.json" none, transform := [], selection := .empty, mark := "bar"
    encoding := (Keyed.empty.put .x ⟨some group, .nominal, none, false, none, none⟩).put .y
      ⟨some field, .quantitative, some "mean", false, none, none⟩ }

theorem averaging_columns (group field : String) :
    (averaging group field).columns = [.raw group, .measured "mean" (some field)] := rfl

theorem aggregate_columns_year :
    ∃ l o, Lowering.empty.addViews .builtIn .empty [averaging "year" "miles"] = .ok (l, [o]) ∧
      (∃ measures, .aggregate ["year"] measures ∈ l.forest.route o.main) ∧
      (averaging "year" "miles").ColumnsApart := by
  have lays : (Lowering.empty.addViews .builtIn .empty [averaging "year" "miles"]).toOption.map
      (fun r => r.2.length) = some 1 := by decide +kernel
  obtain ⟨⟨l, outputs⟩, laid, one⟩ := Forest.exists_ok lays
  obtain ⟨o, rfl⟩ := List.length_eq_one_iff.mp one
  obtain ⟨aggregates, columns, apart, words⟩ :=
    aggregate_columns laid (averaging "year" "miles") o (List.mem_singleton_self _)
  obtain ⟨groupBy, measures, member⟩ := aggregates (by decide)
  obtain ⟨rfl, _⟩ := columns groupBy measures member
  refine ⟨l, o, laid, ⟨measures, member⟩, apart.mpr ⟨?_, ?_, words ?_⟩⟩
  · unfold UnitView.RawApart
    decide +kernel
  · unfold UnitView.PartsApart
    decide +kernel
  · intro op field listed
    obtain ⟨rfl, _⟩ : op = "mean" ∧ field = some "miles" := by simpa [averaging_columns] using listed
    decide +kernel

-- The mean takes the name of the field by which the rows are grouped.
theorem aggregate_columns_meet :
    ∃ l o, Lowering.empty.addViews .builtIn .empty [averaging "mean_miles" "miles"] = .ok (l, [o]) ∧
      (∃ s ∈ l.forest.route o.main,
        s.transforms = [.aggregate ["mean_miles"] ["mean"] [some "miles"] ["mean_miles"]]) ∧
      ¬ (averaging "mean_miles" "miles").ColumnsApart := by
  have lays : (Lowering.empty.addViews .builtIn .empty [averaging "mean_miles" "miles"]).toOption.map
      (fun r => r.2.map fun o => (r.1.forest.route o.main).any fun s =>
        s.transforms == [.aggregate ["mean_miles"] ["mean"] [some "miles"] ["mean_miles"]]) =
      some [true] := by decide +kernel
  obtain ⟨⟨l, outputs⟩, laid, meets⟩ := Forest.exists_ok lays
  obtain ⟨o, rfl, meets⟩ := List.map_eq_singleton_iff.mp meets
  obtain ⟨s, member, same⟩ := List.any_eq_true.mp meets
  refine ⟨l, o, laid, ⟨s, member, beq_iff_eq.mp same⟩, fun apart => ?_⟩
  have one := apart (.raw "mean_miles") (by decide) (.measured "mean" (some "miles")) (by decide)
    (by decide +kernel)
  cases one

end Viewflow
