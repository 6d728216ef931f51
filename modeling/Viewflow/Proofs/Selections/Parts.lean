import Mathlib.Data.List.Flatten
import Viewflow.Proofs.Selections.Defined
import Viewflow.Proofs.Text.Identifiers

namespace Viewflow
open Output (Signal)
open Output.Signal (names names_append)
open Text (softened)

variable {ctx : UnitContext} {s t : Selection} {technique : Technique} {values : List Selection}
  {before after : List Signal} {part : String} {p : Projection} {c : Channel}

namespace Channel

theorem name_injective : name.Injective := by
  intro c c' same
  have found := ofName?_name c
  rw [same, ofName?_name] at found
  exact (Option.some.inj found).symm

theorem name_safe (c : Channel) : softened c.name = c.name := by
  cases c <;> decide

end Channel

namespace Refinement

def parts (r : Refinement) : List String :=
  match r.name with
  | "toggle" => ["toggle"]
  | "translate" => ["translate_anchor", "translate_delta"]
  | "zoom" => ["zoom_anchor", "zoom_delta"]
  | "latest" => ["unit"]
  | _ => []

end Refinement

namespace Selection

def continued (s : Selection) (part : String) : String := s.name ++ "_" ++ part

theorem continued_injective (s : Selection) : s.continued.Injective := by
  intro part part' same
  simpa only [continued, String.append_right_inj] using same

theorem continued_of (s : Selection) {part suffix : String} (same : "_" ++ part = suffix) :
    s.name ++ suffix = s.continued part := by
  rw [← same, continued, String.append_assoc]

theorem continued_ne_unit (s : Selection) (part : String) : s.continued part ≠ "unit" := by
  intro same
  have there : '_' ∈ (s.continued part).toList := by simp [continued]
  rw [same] at there
  exact absurd there (by decide)

def dataPart (s : Selection) (c : Channel) : String := softened ((s.fields.find? c).getD c.name)

-- The channel on the screen and its field. A selection that drives the scales has nothing on the screen.
def extentParts (s : Selection) : List String :=
  (Brush.positions s).flatMap fun p =>
    (if s.bindsScales then [] else [p.1.name]) ++ [s.dataPart p.1]

def techniqueParts (s : Selection) : List String :=
  (if s.type = "interval" then
    s.extentParts ++ if s.bindsScales then [] else ["scale_trigger"]
  else []) ++ ["tuple"]

-- What stands behind the name of the selection in the names of its signals, in their order.
def parts (s : Selection) : List String :=
  s.techniqueParts ++ (Refinement.applicable s).flatMap Refinement.parts ++ ["modify"]

def signalNames (s : Selection) : List String := s.parts.map s.continued

def fieldParts (s : Selection) : List String := (Brush.positions s).map fun p => s.dataPart p.1

def channelParts (s : Selection) : List String :=
  if s.bindsScales then [] else (Brush.positions s).map (·.1.name)

def fixedParts (s : Selection) : List String :=
  (if s.bindsScales then [] else ["scale_trigger"]) ++ ["tuple"] ++
    (Refinement.applicable s).flatMap Refinement.parts ++ ["modify"]

def reserved (s : Selection) : List String := s.channelParts ++ s.fixedParts

theorem extentParts_perm (s : Selection) : s.extentParts.Perm (s.channelParts ++ s.fieldParts) := by
  unfold extentParts channelParts fieldParts
  cases s.bindsScales with
  | true => simp [List.map_eq_flatMap]
  | false =>
    simpa [List.map_eq_flatMap] using (List.flatMap_append_perm (Brush.positions s)
      (fun p => [p.1.name]) (fun p => [s.dataPart p.1])).symm

theorem parts_perm (interval : s.type = "interval") : s.parts.Perm (s.fieldParts ++ s.reserved) := by
  have extent := s.extentParts_perm.trans List.perm_append_comm
  unfold parts techniqueParts reserved fixedParts
  rw [if_pos interval]
  simpa only [List.append_assoc] using extent.append_right _

def fixedNames : List String :=
  ["scale_trigger"] ++ ["tuple"] ++ Refinement.all.flatMap Refinement.parts ++ ["modify"]

theorem refined_sublist {start : List String} (within : start.Sublist (["scale_trigger"] ++ ["tuple"])) :
    (start ++ (Refinement.applicable s).flatMap Refinement.parts ++ ["modify"]).Sublist fixedNames :=
  (within.append (List.filter_sublist.flatMap _)).append_right _

theorem fixedParts_sublist (s : Selection) : s.fixedParts.Sublist fixedNames := by
  refine refined_sublist (List.Sublist.append_right ?_ _)
  split
  · exact List.nil_sublist _
  · exact List.Sublist.refl _

theorem parts_sublist (point : s.type ≠ "interval") : s.parts.Sublist fixedNames := by
  unfold parts techniqueParts
  rw [if_neg point]
  exact refined_sublist (List.sublist_append_right _ _)

theorem fixedNames_nodup : fixedNames.Nodup := by decide

theorem name_notMem_fixed (c : Channel) : c.name ∉ fixedNames := by
  cases c <;> decide

theorem reserved_nodup (fields : s.fieldParts.Nodup) : s.reserved.Nodup := by
  have channels : ((Brush.positions s).map (·.1)).Nodup := by
    have parts : ((Brush.positions s).map (·.1)).map s.dataPart = s.fieldParts := List.map_map
    exact List.Nodup.of_map _ (parts ▸ fields)
  have fixed := s.fixedParts_sublist
  refine List.nodup_append'.mpr ⟨?_, fixed.nodup fixedNames_nodup, ?_⟩
  · unfold channelParts
    split
    · exact List.nodup_nil
    · have names : ((Brush.positions s).map (·.1)).map Channel.name = (Brush.positions s).map (·.1.name) :=
        List.map_map
      exact names ▸ channels.map Channel.name_injective
  · intro part here there
    unfold channelParts at here
    split at here
    · cases here
    · obtain ⟨p, _, rfl⟩ := List.mem_map.mp here
      exact name_notMem_fixed p.1 (fixed.subset there)

-- Only fields can make the parts of a selection clash.
theorem parts_nodup_iff : s.parts.Nodup ↔ (s.type = "interval" →
    s.fieldParts.Nodup ∧ ∀ part ∈ s.fieldParts, part ∉ s.reserved) := by
  by_cases interval : s.type = "interval"
  · rw [(parts_perm interval).nodup_iff, List.nodup_append']
    simp only [interval, true_imp_iff]
    constructor
    · exact fun ⟨fields, _, apart⟩ => ⟨fields, fun _ here there => apart here there⟩
    · exact fun ⟨fields, apart⟩ => ⟨fields, reserved_nodup fields, fun _ here there => apart _ here there⟩
  · simp only [interval, false_imp_iff, iff_true]
    exact (parts_sublist interval).nodup fixedNames_nodup

variable (safe : Text.identifier s.name = s.name)
include safe

theorem visualSignal_continued (c : Channel) : s.visualSignal c = s.continued c.name := by
  rw [visualSignal, Text.identifier_underscore, safe, c.name_safe, continued]

theorem dataSignal_continued (c : Channel) : s.dataSignal c = s.continued (s.dataPart c) := by
  rw [dataSignal, Text.identifier_underscore, safe, continued, dataPart]

theorem inputSignal_continued (p : Projection) :
    Refinement.inputSignal s p = s.continued (softened p.fieldName) := by
  rw [Refinement.inputSignal, Text.identifier_underscore, safe, continued]

end Selection

open Selection (continued)

theorem Brush.names_ofChannel (safe : Text.identifier s.name = s.name) (c : Channel) :
    names (Brush.channelSignals ctx s c) =
      ((if s.bindsScales then [] else [c.name]) ++ [s.dataPart c]).map s.continued := by
  unfold Brush.channelSignals
  cases s.bindsScales <;> simp [names, s.visualSignal_continued safe, s.dataSignal_continued safe]

theorem Brush.names_signals (safe : Text.identifier s.name = s.name) :
    names (Brush.signals ctx s) =
      (s.extentParts ++ (if s.bindsScales then [] else ["scale_trigger"]) ++ ["tuple"]).map
        s.continued := by
  have trigger : Brush.scaleTrigger s = s.continued "scale_trigger" := s.continued_of rfl
  have tuple : s.tuple = s.continued "tuple" := s.continued_of rfl
  unfold Brush.signals Selection.extentParts
  cases positions : Brush.positions s with
  | nil => cases s.bindsScales <;> simp [names, trigger, tuple]
  | cons first rest =>
    have extents : names ((first :: rest).flatMap fun p => Brush.channelSignals ctx s p.1) =
        ((first :: rest).flatMap fun p =>
          (if s.bindsScales then [] else [p.1.name]) ++ [s.dataPart p.1]).map s.continued := by
      rw [names, List.map_flatMap, List.map_flatMap]
      exact List.flatMap_congr fun p _ => Brush.names_ofChannel safe p.1
    rw [List.isEmpty_cons, if_neg Bool.false_ne_true, names_append, names_append, extents,
      List.map_append, List.map_append]
    cases s.bindsScales <;> simp [trigger, tuple]

theorem names_technique (safe : Text.identifier s.name = s.name)
    (found : Registry.builtIn.lookup s.name s.type = .ok technique) :
    names (technique.signals ctx s) = s.techniqueParts.map s.continued := by
  have tuple : s.tuple = s.continued "tuple" := s.continued_of rfl
  unfold Selection.techniqueParts
  rcases Registry.lookup_builtIn found with ⟨single, rfl⟩ | ⟨multi, rfl⟩ | ⟨interval, rfl⟩
  · simp [single, Point.single, Point.signals, names, tuple]
  · simp [multi, Point.multi, Point.signals, names, tuple]
  · rw [if_pos interval]
    exact Brush.names_signals safe

namespace Refinement

theorem names_refined {r : Refinement} (member : r ∈ all) (ctx : UnitContext) (s : Selection)
    (signals : List Signal) :
    names (r.signals ctx s signals) = names signals ++ r.parts.map s.continued := by
  have nothing : names signals = names signals ++ ([] : List String).map s.continued := by simp
  rcases mem_all member with rfl | rfl | rfl | rfl | rfl | rfl | rfl | rfl
  · exact nothing
  · have toggled : toggleSignal s = s.continued "toggle" := s.continued_of rfl
    simp [toggle, toggleSignals, parts, toggled]
  · exact (names_scaleSignals ctx s signals).trans nothing
  · have anchor : panAnchor s = s.continued "translate_anchor" := s.continued_of rfl
    have delta : panDelta s = s.continued "translate_delta" := s.continued_of rfl
    rw [signals_translate, names_moving]
    simp [panSignals, parts, translate, anchor, delta]
  · have anchor : zoomAnchor s = s.continued "zoom_anchor" := s.continued_of rfl
    have delta : zoomDelta s = s.continued "zoom_delta" := s.continued_of rfl
    rw [signals_zoom, names_moving]
    simp [wheelSignals, parts, zoom, anchor, delta]
  · exact (names_inputSignals ctx s signals).trans nothing
  · exact nothing
  · have unit : s.unit = s.continued "unit" := s.continued_of rfl
    simp only [latest, latestSignals, parts, names_append]
    split <;> simp [unit]

theorem names_refinedAll {refinements : List Refinement} (known : ∀ r ∈ refinements, r ∈ all)
    (ctx : UnitContext) (s : Selection) (signals : List Signal) :
    names (refinements.foldl (fun signals r => r.signals ctx s signals) signals) =
      names signals ++ (refinements.flatMap parts).map s.continued := by
  induction refinements generalizing signals with
  | nil => simp
  | cons r rest ih =>
    rw [List.foldl_cons, ih fun r member => known r (List.mem_cons_of_mem _ member),
      names_refined (known r (List.mem_cons_self ..)), List.flatMap_cons, List.map_append,
      List.append_assoc]

end Refinement

namespace Selections

theorem names_addSignals (safe : Text.identifier s.name = s.name)
    (done : addSignals ctx .builtIn before s = .ok after) :
    names after = names before ++ s.signalNames := by
  obtain ⟨technique, found, done⟩ := bind_eq_ok done
  cases done
  have modify : (storeUpdate ctx technique s).name = s.continued "modify" := s.continued_of rfl
  rw [names_append, Refinement.names_refinedAll fun r member =>
    (Refinement.mem_applicable.mp member).1]
  rw [names_append, names_technique safe found, Selection.signalNames, Selection.parts]
  simp [modify]

theorem names_foldlM (safe : ∀ s ∈ values, Text.identifier s.name = s.name)
    (done : values.foldlM (addSignals ctx .builtIn) before = .ok after) :
    names after = names before ++ values.flatMap Selection.signalNames := by
  induction values generalizing before with
  | nil =>
    cases done
    simp
  | cons s rest ih =>
    rw [List.foldlM_cons] at done
    obtain ⟨middle, first, later⟩ := bind_eq_ok done
    rw [ih (fun s member => safe s (List.mem_cons_of_mem _ member)) later,
      names_addSignals (safe s (List.mem_cons_self ..)) first, List.flatMap_cons, List.append_assoc]

def Apart (values : List Selection) : Prop :=
  ∀ s ∈ values, ∀ t ∈ values, ¬ (s.name ++ "_").toList <+: t.name.toList

instance : Decidable (Apart values) :=
  inferInstanceAs (Decidable (∀ s ∈ values, ∀ t ∈ values, ¬ (s.name ++ "_").toList <+: t.name.toList))

theorem Apart.name_eq_of_longer (apart : Apart values) (one : s ∈ values) (two : t ∈ values)
    {more : List Char} (longer : (t.name ++ "_").toList = (s.name ++ "_").toList ++ more) :
    s.name = t.name := by
  rcases List.eq_nil_or_concat more with rfl | ⟨front, last, rfl⟩
  · rw [List.append_nil] at longer
    exact String.toList_inj.mp (by simpa using longer.symm)
  · rw [List.concat_eq_append, ← List.append_assoc, String.toList_append] at longer
    obtain ⟨continues, _⟩ := List.append_inj' longer rfl
    exact absurd ⟨front, continues.symm⟩ (apart s one t two)

theorem Apart.name_eq (apart : Apart values) (one : s ∈ values) (two : t ∈ values) {part part' : String}
    (same : s.continued part = t.continued part') : s.name = t.name := by
  have chars : (s.name ++ "_").toList ++ part.toList = (t.name ++ "_").toList ++ part'.toList := by
    simpa [Selection.continued] using congrArg String.toList same
  rcases List.append_eq_append_iff.mp chars with ⟨more, longer, _⟩ | ⟨more, longer, _⟩
  · exact apart.name_eq_of_longer one two longer
  · exact (apart.name_eq_of_longer two one longer).symm

theorem nodup_signalNames_iff : s.signalNames.Nodup ↔ s.parts.Nodup :=
  List.nodup_map_iff s.continued_injective

-- Among selections of different names, clashes stay within one selection.
theorem Apart.nodup_iff (apart : Apart values) (distinct : (values.map (·.name)).Nodup) :
    (values.flatMap Selection.signalNames).Nodup ↔ ∀ s ∈ values, s.parts.Nodup := by
  simp only [List.nodup_flatMap, nodup_signalNames_iff]
  refine and_iff_left_of_imp fun _ => ?_
  have different : values.Pairwise fun s t => s.name ≠ t.name := List.pairwise_map.mp distinct
  refine different.imp_of_mem fun one two other name here there => ?_
  obtain ⟨part, _, rfl⟩ := List.mem_map.mp here
  obtain ⟨part', _, same⟩ := List.mem_map.mp there
  exact other (apart.name_eq one two same.symm)

theorem Apart.mem_iff (apart : Apart values) (distinct : (values.map (·.name)).Nodup)
    (listed : s ∈ values) : s.continued part ∈ values.flatMap Selection.signalNames ↔ part ∈ s.parts := by
  rw [List.mem_flatMap]
  constructor
  · rintro ⟨t, other, member⟩
    obtain ⟨part', listed', same⟩ := List.mem_map.mp member
    have one : t = s := List.inj_on_of_nodup_map distinct other listed (apart.name_eq other listed same)
    subst one
    rwa [← t.continued_injective same]
  · exact fun member => ⟨s, listed, List.mem_map_of_mem member⟩

end Selections
end Viewflow
