import Viewflow.Proofs.Forest.Splice
import Viewflow.Proofs.Selections.Lifted

namespace Viewflow
open Viewflow.Flow (Forest)
open Output (Signal)
open Output.Signal (names names_append)

variable {ctx : UnitContext} {registry : Registry} {s t : Selection} {values : List Selection}
  {selections earlier : Selections} {before after : List Signal} {key name : String}

namespace Selection

def Owns (s : Selection) (name : String) : Prop := (s.name ++ "_").toList <+: name.toList

instance (s : Selection) (name : String) : Decidable (s.Owns name) :=
  inferInstanceAs (Decidable ((s.name ++ "_").toList <+: name.toList))

theorem owns_iff : s.Owns name ↔ ∃ part, name = s.continued part := by
  constructor
  · rintro ⟨more, same⟩
    refine ⟨String.ofList more, String.toList_inj.mp ?_⟩
    simpa [continued] using same.symm
  · rintro ⟨part, rfl⟩
    exact ⟨part.toList, by simp [continued]⟩

theorem owns_continued (s : Selection) (part : String) : s.Owns (s.continued part) :=
  owns_iff.mpr ⟨part, rfl⟩

def Foreign (s : Selection) (signals : List Signal) : Prop := ∀ name ∈ names signals, ¬ s.Owns name

instance (s : Selection) (signals : List Signal) : Decidable (s.Foreign signals) :=
  inferInstanceAs (Decidable (∀ name ∈ names signals, ¬ s.Owns name))

theorem Foreign.append (one : s.Foreign before) (two : s.Foreign after) : s.Foreign (before ++ after) := by
  intro name member
  rw [names_append] at member
  exact (List.mem_append.mp member).elim (one name) (two name)

-- Reads and changes nothing in front of the selection's own signals.
def Local (s : Selection) (act : List Signal → List Signal) : Prop :=
  ∀ front, s.Foreign front → ∀ signals, act (front ++ signals) = front ++ act signals

namespace Local

variable {α : Type} {as : List α} {act act' : List Signal → List Signal}
  {step : List Signal → α → List Signal}

theorem nothing : s.Local fun signals => signals := fun _ _ _ => rfl

theorem seq (one : s.Local act) (two : s.Local act') : s.Local fun signals => act' (act signals) := by
  intro front foreign signals
  change act' (act (front ++ signals)) = front ++ act' (act signals)
  rw [one front foreign, two front foreign]

theorem fold (each : ∀ a ∈ as, s.Local fun signals => step signals a) :
    s.Local fun signals => as.foldl step signals := by
  induction as with
  | nil => exact nothing
  | cons a as ih =>
    obtain ⟨here, others⟩ := List.forall_mem_cons.mp each
    exact here.seq (ih others)

theorem behind (more : List Signal) : s.Local fun signals => signals ++ more :=
  fun front _ signals => List.append_assoc front signals more

-- The first signal of a name of the selection's own stands behind whatever is foreign to it.
theorem change (own : s.Owns name) (f : Signal → Signal) : s.Local (Signal.change name f) := by
  intro front foreign signals
  induction front with
  | nil => rfl
  | cons first rest ih =>
    obtain ⟨other, others⟩ := List.forall_mem_cons.mp foreign
    have different : first.name ≠ name := by
      rintro rfl
      exact other own
    rw [List.cons_append, Signal.change, if_neg different, ih others, List.cons_append]

end Local

variable (safe : Text.identifier s.name = s.name)
include safe

theorem owns_dataSignal (c : Channel) : s.Owns (s.dataSignal c) :=
  s.dataSignal_continued safe c ▸ s.owns_continued _

theorem owns_visualSignal (c : Channel) : s.Owns (s.visualSignal c) :=
  s.visualSignal_continued safe c ▸ s.owns_continued _

theorem owns_movedSignal (c : Channel) : s.Owns (Refinement.movedSignal s c) := by
  unfold Refinement.movedSignal
  split
  · exact owns_dataSignal safe c
  · exact owns_visualSignal safe c

end Selection

open Selection (Local)

namespace Refinement

theorem local_scales (safe : Text.identifier s.name = s.name) (ctx : UnitContext) :
    s.Local (scaleSignals ctx s) := by
  unfold scaleSignals
  split
  · exact .fold fun c _ => .change (Selection.owns_dataSignal safe c) _
  · exact .nothing

theorem local_moving (safe : Text.identifier s.name = s.name) (delta : String)
    (update : Channel → String) (gesture : List Signal) : s.Local (moving s delta update gesture) :=
  (Local.behind gesture).seq (.fold fun c _ => .change (Selection.owns_movedSignal safe c) _)

theorem local_inputs (ctx : UnitContext) (s : Selection) : s.Local (inputSignals ctx s) := by
  have tuple : s.tuple = s.continued "tuple" := s.continued_of rfl
  exact .change (tuple ▸ s.owns_continued "tuple") _

theorem local_signals {r : Refinement} (member : r ∈ all) (safe : Text.identifier s.name = s.name)
    (ctx : UnitContext) : s.Local (r.signals ctx s) := by
  rcases mem_all member with rfl | rfl | rfl | rfl | rfl | rfl | rfl | rfl
  · exact .nothing
  · exact .behind _
  · exact local_scales safe ctx
  · exact local_moving safe _ _ _
  · exact local_moving safe _ _ _
  · exact local_inputs ctx s
  · exact .nothing
  · exact .behind _

end Refinement

namespace Selections

theorem local_refined (safe : Text.identifier s.name = s.name) (ctx : UnitContext) :
    s.Local fun signals =>
      (Refinement.applicable s).foldl (fun signals r => r.signals ctx s signals) signals :=
  .fold fun _ member => Refinement.local_signals (Refinement.mem_applicable.mp member).1 safe ctx

theorem addSignals_behind (safe : Text.identifier s.name = s.name) (foreign : s.Foreign before) :
    addSignals ctx registry before s = (addSignals ctx registry [] s).map (before ++ ·) := by
  unfold addSignals
  cases registry.lookup s.name s.type with
  | error failure => rfl
  | ok technique =>
    have apart := local_refined safe ctx before foreign (technique.signals ctx s)
    beta_reduce at apart
    simp [apart, bind, Except.bind, pure, Except.pure, Except.map]

theorem signals_single (ctx : UnitContext) (registry : Registry) (key : String) (s : Selection)
    (before : List Signal) :
    Selections.signals ctx registry (Keyed.empty.put key s) before = addSignals ctx registry before s := by
  change (addSignals ctx registry before s >>= pure) = _
  rw [bind_pure]

theorem signals_split (split : selections.entries = earlier.entries ++ [(key, s)]) :
    selections.signals ctx registry before =
      earlier.signals ctx registry before >>= fun front => addSignals ctx registry front s := by
  have values : selections.values = earlier.values ++ [s] := by simp [Keyed.values, split]
  unfold Selections.signals
  rw [values, List.foldlM_append]
  refine bind_congr fun front => ?_
  exact bind_pure _

theorem exists_signals_iff :
    (∃ after, selections.signals ctx .builtIn before = .ok after) ↔ selections.Registered := by
  apply exists_foldlM_iff
  intro before s
  rw [← Registry.exists_lookup_iff]
  constructor
  · intro ⟨_, done⟩
    obtain ⟨technique, found, _⟩ := bind_eq_ok done
    exact ⟨technique, found⟩
  · intro ⟨technique, found⟩
    unfold addSignals
    rw [found]
    exact ⟨_, rfl⟩

structure Block (s : Selection) (block : List String) : Prop where
  owned : ∀ name ∈ block, s.Owns name
  ends : block.getLast? = some s.modify

theorem block_signalNames (s : Selection) : Block s s.signalNames where
  owned name member := by
    obtain ⟨part, _, rfl⟩ := List.mem_map.mp member
    exact s.owns_continued part
  ends := by
    have modify : s.modify = s.continued "modify" := s.continued_of rfl
    simp [Selection.signalNames, Selection.parts, modify]

theorem owns_addSignals (safe : Text.identifier s.name = s.name)
    (done : addSignals ctx .builtIn [] s = .ok after) : ∀ name ∈ names after, s.Owns name := by
  rw [names_addSignals safe done]
  exact (block_signalNames s).owned

theorem Apart.foreign (apart : Apart values) (one : s ∈ values) (two : t ∈ values)
    (other : s.name ≠ t.name) {block : List Signal} (owned : ∀ name ∈ names block, s.Owns name) :
    t.Foreign block := by
  intro name member owns
  obtain ⟨part, same⟩ := Selection.owns_iff.mp (owned name member)
  obtain ⟨part', same'⟩ := Selection.owns_iff.mp owns
  exact other (apart.name_eq one two (same.symm.trans same'))

-- Where no selection's name continues another's, every block is what its selection has alone.
theorem foldlM_blocks (safe : ∀ s ∈ values, Text.identifier s.name = s.name) (apart : Apart values)
    (distinct : (values.map (·.name)).Nodup) (foreign : ∀ s ∈ values, s.Foreign before) :
    values.foldlM (addSignals ctx .builtIn) before =
      (values.mapM (addSignals ctx .builtIn [])).map fun blocks => before ++ blocks.flatten := by
  induction values generalizing before with
  | nil =>
    change Except.ok before = Except.ok (before ++ [])
    rw [List.append_nil]
  | cons s rest ih =>
    obtain ⟨here, safe⟩ := List.forall_mem_cons.mp safe
    obtain ⟨first, foreign⟩ := List.forall_mem_cons.mp foreign
    obtain ⟨new, distinct⟩ := List.nodup_cons.mp distinct
    rw [List.foldlM_cons, List.mapM_cons, addSignals_behind here first]
    cases alone : addSignals ctx .builtIn [] s with
    | error failure => rfl
    | ok own =>
      have others : ∀ t ∈ rest, t.Foreign (before ++ own) := by
        intro t member
        have different : s.name ≠ t.name := fun same => new (List.mem_map.mpr ⟨t, member, same.symm⟩)
        have added : t.Foreign own := apart.foreign (List.mem_cons_self ..) (List.mem_cons_of_mem s member)
          different (owns_addSignals here alone)
        exact (foreign t member).append added
      have within : Apart rest := fun s one t two =>
        apart s (List.mem_cons_of_mem _ one) t (List.mem_cons_of_mem _ two)
      have later := ih safe within distinct others
      change rest.foldlM (addSignals ctx .builtIn) (before ++ own) = _
      rw [later]
      cases rest.mapM (addSignals ctx .builtIn []) with
      | error failure => rfl
      | ok blocks =>
        change Except.ok (before ++ own ++ blocks.flatten) = Except.ok (before ++ (own ++ blocks.flatten))
        rw [List.append_assoc]

-- Whatever stands in front of a selection's signals under other names stays as it is and changes nothing of
-- what the selection adds. The signals of a view are blocks, one for each selection, each as it is where
-- the selection is the only one as long as no name continues another.
theorem signals_independent (safe : ∀ t ∈ selections.values, Text.identifier t.name = t.name)
    (split : selections.entries = earlier.entries ++ [(key, s)])
    (foreign : ∀ front, earlier.signals ctx .builtIn before = .ok front → s.Foreign front) :
    (selections.signals ctx .builtIn before = do
      let front ← earlier.signals ctx .builtIn before
      let own ← Selections.signals ctx .builtIn (Keyed.empty.put key s) []
      return front ++ own) ∧
    ((∃ after, selections.signals ctx .builtIn before = .ok after) ↔ selections.Registered) ∧
    (∀ r ∈ Refinement.applicable s, s.Local (r.signals ctx s)) ∧
    (∀ after, selections.signals ctx .builtIn before = .ok after →
      ∃ blocks, List.Forall₂ Block selections.values blocks ∧
        names after = names before ++ blocks.flatten) ∧
    (Apart selections.values → (selections.values.map (·.name)).Nodup →
      (∀ t ∈ selections.values, t.Foreign before) →
      selections.signals ctx .builtIn before =
        (selections.values.mapM (addSignals ctx .builtIn [])).map fun blocks =>
          before ++ blocks.flatten) := by
  have here : Text.identifier s.name = s.name := safe s (by simp [Keyed.values, split])
  refine ⟨?_, exists_signals_iff, ?_, ?_, foldlM_blocks safe⟩
  · rw [signals_split split]
    cases done : earlier.signals ctx .builtIn before with
    | error failure => rfl
    | ok front =>
      change addSignals ctx .builtIn front s = _
      rw [addSignals_behind here (foreign front done), signals_single]
      rfl
  · exact fun r member => Refinement.local_signals (Refinement.mem_applicable.mp member).1 here ctx
  · intro after done
    refine ⟨selections.values.map Selection.signalNames, ?_, ?_⟩
    · rw [List.forall₂_map_right_iff]
      exact List.forall₂_same.mpr fun t _ => block_signalNames t
    · rw [names_foldlM safe done, List.flatMap]

def draggable (s : Selection) : Selection :=
  { s with
    project := [.encoding .x "price", .encoding .y "year"]
    fields := .ofList [(.x, "price"), (.y, "year")]
    translate := some "[mousedown, window:mouseup] > window:mousemove!"
    zoom := some "wheel!" }

def brush : Selections :=
  Keyed.empty.put "brush" (draggable { name := "brush", type := "interval", resolve := .single })

def pan : Selection := draggable { name := "pan", type := "interval", bind := some .scales, scales := [.x, .y] }

def onlyPan : Selections := Keyed.empty.put "pan" pan

def brushAndPan : Selections := brush.put "pan" pan

def amongOthers : UnitContext where
  view :=
    { name := "cars", data := .named "cars", transform := [], encoding := .empty, selection := .empty
      mark := "point" }
  composed := true

-- Names that begin as those of the second selection do, but do not continue its name.
def likePan : List Signal := [{ name := "pan" }, { name := "panorama_x" }]

theorem signals_independent_pan :
    ∃ front own blocks, brush.signals amongOthers .builtIn likePan = .ok front ∧
      onlyPan.signals amongOthers .builtIn [] = .ok own ∧
      brushAndPan.signals amongOthers .builtIn likePan = .ok (front ++ own) ∧
      brushAndPan.values.mapM (addSignals amongOthers .builtIn []) = .ok blocks ∧
      front ++ own = likePan ++ blocks.flatten ∧
      names own = ["pan_price", "pan_year", "pan_tuple", "pan_translate_anchor", "pan_translate_delta",
        "pan_zoom_anchor", "pan_zoom_delta", "pan_modify"] := by
  have counted : (brush.signals amongOthers .builtIn likePan).toOption.map
      (fun front => decide (pan.Foreign front)) = some true := by
    decide +kernel
  have named : (onlyPan.signals amongOthers .builtIn []).toOption.map names =
      some ["pan_price", "pan_year", "pan_tuple", "pan_translate_anchor", "pan_translate_delta",
        "pan_zoom_anchor", "pan_zoom_delta", "pan_modify"] := by
    decide +kernel
  obtain ⟨front, first, apart⟩ := Forest.exists_ok counted
  obtain ⟨own, alone, same⟩ := Forest.exists_ok named
  have safe : ∀ t ∈ brushAndPan.values, Text.identifier t.name = t.name := by decide +kernel
  have split : brushAndPan.entries = brush.entries ++ [("pan", pan)] := rfl
  have foreign : ∀ front, brush.signals amongOthers .builtIn likePan = .ok front → pan.Foreign front := by
    intro front' done
    cases first.symm.trans done
    exact of_decide_eq_true apart
  obtain ⟨behind, _, _, _, blocked⟩ := signals_independent safe split foreign
  have whole : brushAndPan.signals amongOthers .builtIn likePan = .ok (front ++ own) := by
    rw [behind, first]
    change (onlyPan.signals amongOthers .builtIn [] >>= fun own => Except.ok (front ++ own)) = _
    rw [alone]
    rfl
  have parts := blocked (by decide +kernel) (by decide +kernel) (by decide +kernel)
  rw [whole] at parts
  cases added : brushAndPan.values.mapM (addSignals amongOthers .builtIn []) with
  | error _ =>
    rw [added] at parts
    cases parts
  | ok blocks =>
    rw [added] at parts
    exact ⟨front, own, blocks, first, alone, whole, rfl, Except.ok.inj parts, same⟩

end Selections
end Viewflow
