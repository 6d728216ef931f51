import Viewflow.Proofs.Lowering.Views
import Viewflow.Proofs.Text.Values
import Viewflow.Proofs.Views.Recipe
import Viewflow.Selection.Brush

namespace Viewflow

namespace DataRef

variable {a b c : DataRef}

-- The same place, name or values, the values numbers by how they are written.
def alike : DataRef → DataRef → Bool
  | .remote a _, .remote b _ => a == b
  | .inline as, .inline bs => Json.agreeItems as bs
  | .named a, .named b => a == b
  | _, _ => false

def agrees : DataRef → DataRef → Bool
  | .remote a f, .remote b g => a == b && f == g
  | .inline as, .inline bs => Json.agreeItems as bs
  | .named a, .named b => a == b
  | _, _ => false

def format? : DataRef → Option DataFormat
  | .remote _ format => format
  | _ => none

-- Keys tell apart what references name.
theorem key_eq_iff (a b : DataRef) : a.key = b.key ↔ a.alike b = true := by
  have places (a b : String) : "url:" ++ a = "url:" ++ b ↔ a = b := String.append_right_inj _
  have values (a b : String) : "values:" ++ a = "values:" ++ b ↔ a = b := String.append_right_inj _
  have names (a b : String) : "named:" ++ a = "named:" ++ b ↔ a = b := String.append_right_inj _
  cases a <;> cases b <;> simp only [key, alike, reduceCtorEq, iff_false]
  case remote.remote => rw [places, beq_iff_eq]
  case inline.inline as bs => rw [values, Json.text_eq_iff, Json.agrees]
  case named.named => rw [names, beq_iff_eq]
  all_goals
    intro same
    have front := congrArg (·.toList.head?) same
    simp at front

theorem agrees_iff (a b : DataRef) :
    a.agrees b = true ↔ a.alike b = true ∧ a.format? = b.format? := by
  cases a <;> cases b <;> simp [agrees, alike, format?]

end DataRef

namespace Flow

variable {f : Forest} {l l' : Lowering} {head id : NodeId} {v : UnitView} {p : Pipeline}
  {seen views : List UnitView} {outputs : List Outputs} {registry : Registry} {index : Index}

namespace Lowering

def Registered (l : Lowering) : Prop := ∀ r ∈ l.forest.roots, ∃ key, l.sources.find? key = some r

theorem registered_source (registered : l.Registered) (data : DataRef) :
    (l.source data).1.Registered := by
  unfold Lowering.source
  cases absent : l.sources.find? data.key with
  | some id => exact registered
  | none =>
    intro r root
    rcases List.mem_append.mp root with old | new
    · obtain ⟨key, found⟩ := registered r old
      have other : key ≠ data.key := by
        rintro rfl
        rw [absent] at found
        cases found
      exact ⟨key, (Keyed.find?_put ..).trans ((if_neg other).trans found)⟩
    · rw [List.mem_singleton.mp new]
      exact ⟨data.key, (Keyed.find?_put ..).trans (if_pos rfl)⟩

theorem registered_extendAll (registered : l.Registered) (head : NodeId) (steps : List NamedStep) :
    (l.extendAll head steps).1.Registered := by
  induction steps generalizing l head with
  | nil => exact registered
  | cons step steps ih => exact ih (l := (l.extend head step).1) registered _

theorem registered_lay (registered : l.Registered) (v : UnitView) (p : Pipeline) :
    (l.lay v p).1.Registered := by
  have started := registered_source registered v.data
  have early := registered_extendAll started (l.source v.data).2 p.early
  exact registered_extendAll (l := (output _ _ "raw" (v.unitName ++ "_raw") .raw).1) early _ p.late

theorem registered_addViews (registered : l.Registered)
    (done : l.addViews registry index views = .ok (l', outputs)) : l'.Registered := by
  induction views generalizing l outputs with
  | nil =>
    cases done
    exact registered
  | cons v views ih =>
    obtain ⟨⟨l₁, o⟩, added, done⟩ := bind_eq_ok done
    obtain ⟨p, _, laid⟩ := bind_eq_ok added
    cases laid
    obtain ⟨⟨l₂, others⟩, rest, done⟩ := bind_eq_ok done
    cases done
    exact ih (registered_lay registered v p) rest

def root (l : Lowering) (o : Outputs) : NodeId := l.forest.top o.main

theorem Laid.root {o : Outputs} (laid : Laid f seen v p o) (valid : f.WellFormed) :
    f.top o.main ∈ f.roots ∧
      ∃ w, firstWith seen v.data.key = some w ∧ f.step (f.top o.main) = .source w.data := by
  obtain ⟨w, first, route⟩ := laid.route
  have front := valid.head?_route o.main
  rw [route] at front
  exact ⟨List.contains_iff_mem.mp laid.attached, w, first, (Option.some.inj front).symm⟩

theorem key_firstWith {key : String} {w : UnitView} (first : firstWith seen key = some w) :
    w.data.key = key := by simpa using List.find?_some first

theorem root_unique {key : String} {r : NodeId} {w : UnitView} (registered : l.Registered)
    (sourced : l.Sourced seen) (root : r ∈ l.forest.roots) (first : firstWith seen key = some w)
    (source : l.forest.step r = .source w.data) : l.sources.find? key = some r := by
  obtain ⟨key', found⟩ := registered r root
  obtain ⟨_, w', first', source'⟩ := sourced.known key' r found
  have same : w.data = w'.data := Step.source.inj (source.symm.trans source')
  rwa [← key_firstWith first, same, key_firstWith first']

-- The main outputs hang from sources that have the views' data, two from one source where two views
-- have the same.
structure Sources (l : Lowering) (views : List UnitView) (outputs : List Outputs)
    (same : DataRef → DataRef → Bool) : Prop where
  length : outputs.length = views.length
  own : ∀ entry ∈ views.zip outputs, l.root entry.2 ∈ l.forest.roots ∧
    ∃ data, l.forest.step (l.root entry.2) = .source data ∧ same data entry.1.data = true
  shared : ∀ entry ∈ views.zip outputs, ∀ other ∈ views.zip outputs,
    l.root entry.2 = l.root other.2 ↔ same entry.1.data other.1.data = true

theorem root_spec (laid : Lowering.empty.addViews registry index views = .ok (l, outputs)) :
    outputs.length = views.length ∧ ∀ entry ∈ views.zip outputs,
      l.root entry.2 ∈ l.forest.roots ∧ l.sources.find? entry.1.data.key = some (l.root entry.2) ∧
        ∃ w, firstWith views entry.1.data.key = some w ∧
          l.forest.step (l.root entry.2) = .source w.data := by
  obtain ⟨strands, sourced, _, _, every⟩ := addViews_spec (.empty _) .empty laid
  have registered : l.Registered := registered_addViews (fun r root => by cases root) laid
  refine ⟨every.length_eq.symm, ?_⟩
  rintro ⟨v, o⟩ listed
  obtain ⟨p, _, laid⟩ := (List.forall₂_iff_zip.mp every).2 listed
  obtain ⟨root, w, first, source⟩ := laid.root strands.valid
  exact ⟨root, root_unique registered sourced root first source, w, first, source⟩

theorem firstWith_key (views : List UnitView) (data : DataRef) :
    firstWith views data.key = views.find? fun w => w.data.alike data := by
  unfold firstWith
  congr 1
  funext w
  rw [Bool.eq_iff_iff, beq_iff_eq, DataRef.key_eq_iff]

theorem sources_alike (laid : Lowering.empty.addViews registry index views = .ok (l, outputs)) :
    l.Sources views outputs DataRef.alike := by
  obtain ⟨length, every⟩ := root_spec laid
  refine ⟨length, ?_, ?_⟩
  · intro entry listed
    obtain ⟨root, _, w, first, source⟩ := every entry listed
    exact ⟨root, w.data, source, (DataRef.key_eq_iff ..).mp (key_firstWith first)⟩
  · intro entry listed other listed'
    obtain ⟨_, found, w, first, source⟩ := every entry listed
    obtain ⟨_, found', w', first', source'⟩ := every other listed'
    rw [← DataRef.key_eq_iff]
    constructor
    · intro shared
      rw [← shared, source] at source'
      rw [← key_firstWith first, ← key_firstWith first', Step.source.inj source']
    · intro same
      rw [same, found'] at found
      exact (Option.some.inj found).symm

theorem root_first (laid : Lowering.empty.addViews registry index views = .ok (l, outputs)) :
    ∀ entry ∈ views.zip outputs, ∃ first,
      views.find? (fun w => w.data.alike entry.1.data) = some first ∧
        l.forest.step (l.root entry.2) = .source first.data := by
  intro entry listed
  obtain ⟨_, _, first, found, source⟩ := (root_spec laid).2 entry listed
  exact ⟨first, (firstWith_key ..).symm.trans found, source⟩

-- Sources are found by what they name, and have the data of the first view that names it. They have
-- all views' data, formats and all, as long as no two views read one place in different formats.
theorem addViews_sources (laid : Lowering.empty.addViews registry index views = .ok (l, outputs)) :
    l.Sources views outputs DataRef.alike ∧
      (∀ entry ∈ views.zip outputs, ∃ first,
        views.find? (fun w => w.data.alike entry.1.data) = some first ∧
          l.forest.step (l.root entry.2) = .source first.data) ∧
      (l.Sources views outputs DataRef.agrees ↔
        ∀ v ∈ views, ∀ w ∈ views, v.data.alike w.data = true → v.data.agrees w.data = true) := by
  have alike := sources_alike laid
  refine ⟨alike, root_first laid, ?_, ?_⟩
  · intro agreeing v listed w listed' same
    have entries : (views.zip outputs).map Prod.fst = views :=
      List.map_fst_zip alike.length.ge
    obtain ⟨entry, member, rfl⟩ := List.mem_map.mp (entries ▸ listed)
    obtain ⟨other, member', rfl⟩ := List.mem_map.mp (entries ▸ listed')
    exact (agreeing.shared entry member other member').mp
      ((alike.shared entry member other member').mpr same)
  · intro formats
    refine ⟨alike.length, ?_, ?_⟩
    · intro entry listed
      obtain ⟨first, found, source⟩ := root_first laid entry listed
      have same : first.data.alike entry.1.data = true := by simpa using List.find?_some found
      exact ⟨(alike.own entry listed).1, first.data, source, formats first
        (List.mem_of_find?_eq_some found) entry.1 (List.of_mem_zip listed).1 same⟩
    · intro entry listed other listed'
      rw [alike.shared entry listed other listed']
      exact ⟨formats entry.1 (List.of_mem_zip listed).1 other.1 (List.of_mem_zip listed').1,
        fun agree => ((DataRef.agrees_iff ..).mp agree).1⟩

end Lowering

def plainView (name : String) (data : DataRef) : UnitView where
  name
  data
  transform := []
  encoding := .empty
  selection := .empty
  mark := "point"

def carsIn (format : String) : DataRef := .remote "cars.json" (some ⟨some format⟩)

namespace Lowering

def plainViews : List UnitView :=
  [plainView "left" (carsIn "json"), plainView "right" (carsIn "json"),
    plainView "ones" (.inline [.ofNat 1]), plainView "cars" (.named "cars.json")]

theorem addViews_sources_plain :
    ∃ l outputs, Lowering.empty.addViews .builtIn .empty plainViews = .ok (l, outputs) ∧
      l.Sources plainViews outputs DataRef.agrees := by
  have lays : (Lowering.empty.addViews .builtIn .empty plainViews).toOption.map
      (fun _ => true) = some true := by decide +kernel
  obtain ⟨⟨l, outputs⟩, laid, _⟩ := Forest.exists_ok lays
  exact ⟨l, outputs, laid, (addViews_sources laid).2.2.mpr (by decide +kernel)⟩

def twoFormats : List UnitView := [plainView "left" (carsIn "json"), plainView "right" (carsIn "csv")]

-- One source for both, though one of them reads it in another format.
theorem addViews_sources_two_formats :
    ∃ l outputs, Lowering.empty.addViews .builtIn .empty twoFormats = .ok (l, outputs) ∧
      ¬ l.Sources twoFormats outputs DataRef.agrees := by
  have lays : (Lowering.empty.addViews .builtIn .empty twoFormats).toOption.map
      (fun r => r.2.map r.1.root) = some [⟨0⟩, ⟨0⟩] := by decide +kernel
  obtain ⟨⟨l, outputs⟩, laid, roots⟩ := Forest.exists_ok lays
  refine ⟨l, outputs, laid, fun sources => ?_⟩
  match outputs, roots with
  | [left, right], roots =>
    obtain ⟨first, second⟩ : l.root left = ⟨0⟩ ∧ l.root right = ⟨0⟩ := by simpa using roots
    have shared := (sources.shared (_, left) (List.mem_cons_self ..) (_, right)
      (List.mem_cons_of_mem _ (List.mem_cons_self ..))).mp (first.trans second.symm)
    have apart : (carsIn "json").agrees (carsIn "csv") = false := by decide
    exact absurd shared (ne_true_of_eq_false apart)

end Lowering
end Flow
end Viewflow
