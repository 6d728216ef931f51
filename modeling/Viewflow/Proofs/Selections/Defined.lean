import Viewflow.Proofs.Lowering.Pipelines
import Viewflow.Selection.Assembly
import Viewflow.Selection.Brush

namespace Viewflow
open Output (Signal)

namespace Output.Signal

variable {α : Type} {act : List Signal → α → List Signal} {as : List α} {a : α}
  {signals : List Signal} {f : Signal → Signal} {name : String}

@[simp] theorem names_append (signals more : List Signal) :
    names (signals ++ more) = names signals ++ names more := List.map_append

@[simp] theorem names_nil : names [] = [] := rfl

@[simp] theorem names_cons (s : Signal) (signals : List Signal) :
    names (s :: signals) = s.name :: names signals := rfl

theorem present_iff : present signals name = true ↔ name ∈ names signals := by
  simp [present, names]

theorem names_change (keeps : ∀ s, (f s).name = s.name) : names (change name f signals) = names signals := by
  induction signals with
  | nil => rfl
  | cons s rest ih =>
    unfold change
    split
    · rw [names_cons, names_cons, keeps]
    · rw [names_cons, names_cons, ih]

theorem forall_change {P : Signal → Prop} (all : ∀ s ∈ signals, P s)
    (step : ∀ s, s.name = name → P s → P (f s)) : ∀ s ∈ change name f signals, P s := by
  induction signals with
  | nil => exact all
  | cons first rest ih =>
    obtain ⟨here, others⟩ := List.forall_mem_cons.mp all
    unfold change
    split
    · next same => exact List.forall_mem_cons.mpr ⟨step first same here, others⟩
    · exact List.forall_mem_cons.mpr ⟨here, ih others⟩

theorem names_foldl_eq (keeps : ∀ before a, names (act before a) = names before)
    (signals : List Signal) : names (as.foldl act signals) = names signals := by
  induction as generalizing signals with
  | nil => rfl
  | cons a as ih => rw [List.foldl_cons, ih, keeps]

theorem names_foldl (grows : ∀ a ∈ as, ∀ before, names before ⊆ names (act before a))
    (signals : List Signal) : names signals ⊆ names (as.foldl act signals) := by
  induction as generalizing signals with
  | nil => exact List.Subset.refl _
  | cons a as ih =>
    exact List.Subset.trans (grows a (List.mem_cons_self ..) signals)
      (ih (fun b member => grows b (List.mem_cons_of_mem _ member)) _)

theorem names_foldl_of_mem (grows : ∀ a ∈ as, ∀ before, names before ⊆ names (act before a))
    (member : a ∈ as) (signals : List Signal) :
    ∃ before, names (act before a) ⊆ names (as.foldl act signals) := by
  induction as generalizing signals with
  | nil => cases member
  | cons b as ih =>
    have later := fun c listed => grows c (List.mem_cons_of_mem b listed)
    rcases List.mem_cons.mp member with rfl | listed
    · exact ⟨signals, names_foldl later _⟩
    · exact ih later listed _

end Output.Signal

open Output.Signal (names names_append names_change names_cons names_foldl names_foldl_eq names_foldl_of_mem)

variable {ctx : UnitContext} {registry : Registry} {s : Selection} {technique : Technique}
  {values : List Selection} {signals signals' top top' : List Signal}

namespace Refinement

theorem names_pushOut (s : Selection) (signals : List Signal) (c : Channel) :
    names (pushOut s signals c) = names signals :=
  names_change fun _ => rfl

theorem names_scaleSignals (ctx : UnitContext) (s : Selection) (signals : List Signal) :
    names (scaleSignals ctx s signals) = names signals := by
  unfold scaleSignals
  split
  · exact names_foldl_eq (names_pushOut s) signals
  · rfl

def moving (s : Selection) (delta : String) (update : Channel → String)
    (gesture signals : List Signal) : List Signal :=
  onPositions s (fun c signal => signal.on (.onSignal delta (update c))) (signals ++ gesture)

def panSignals (ctx : UnitContext) (s : Selection) : List Signal :=
  [{ name := panAnchor s
     value := some (.obj [])
     handlers :=
       [{ events := .arr ((panEvents s).map fun b => .str b.startText), update := panStart ctx s }] },
    { name := panDelta s
      value := some (.obj [])
      handlers :=
        [{ events := .arr ((panEvents s).map fun b => .str b.text)
           update := "\x7bx: " ++ panAnchor s ++ ".x - x(unit), y: " ++ panAnchor s ++
             ".y - y(unit)\x7d" }] }]

def wheelSignals (ctx : UnitContext) (s : Selection) : List Signal :=
  [{ name := zoomAnchor s
     handlers := [{ events := zoomEvents s, update := zoomStart ctx s }] },
    { name := zoomDelta s
      handlers :=
        [{ events := zoomEvents s
           update := "pow(1.001, event.deltaY * pow(16, event.deltaMode))"
           force := true }] }]

theorem signals_translate (ctx : UnitContext) (s : Selection) (signals : List Signal) :
    translate.signals ctx s signals =
      moving s (panDelta s) (panUpdate s) (panSignals ctx s) signals := rfl

theorem signals_zoom (ctx : UnitContext) (s : Selection) (signals : List Signal) :
    zoom.signals ctx s signals =
      moving s (zoomDelta s) (zoomUpdate ctx s) (wheelSignals ctx s) signals := rfl

theorem names_moving (s : Selection) (delta : String) (update : Channel → String)
    (gesture signals : List Signal) :
    names (moving s delta update gesture signals) = names (signals ++ gesture) := by
  apply names_foldl_eq
  intro before c
  exact names_change fun _ => rfl

theorem names_inputSignals (ctx : UnitContext) (s : Selection) (signals : List Signal) :
    names (inputSignals ctx s signals) = names signals :=
  names_change fun _ => rfl

theorem names_addMissing (signals : List Signal) (signal : Signal) :
    names signals ⊆ names (addMissing signals signal) ∧
      signal.name ∈ names (addMissing signals signal) := by
  unfold addMissing
  split
  · next there => exact ⟨List.Subset.refl _, Signal.present_iff.mp there⟩
  · simp

theorem names_topLevelScaleSignals (ctx : UnitContext) (s : Selection) (signals : List Signal) :
    names signals ⊆ names (topLevelScaleSignals ctx s signals) := by
  unfold topLevelScaleSignals
  split
  · exact names_foldl (fun c _ before => (names_addMissing before _).1) signals
  · exact List.Subset.refl _

theorem names_addInput (s : Selection) (signals : List Signal) (p : Projection) :
    names signals ⊆ names (addInput s signals p) := by
  unfold addInput
  simp only
  split
  · exact List.Subset.refl _
  · exact List.subset_cons_self _ _

theorem names_topLevelLatest (ctx : UnitContext) (s : Selection) (signals : List Signal) :
    names signals ⊆ names (topLevelLatest ctx s signals) := by
  unfold topLevelLatest
  split
  · exact (names_addMissing signals _).1
  · exact List.Subset.refl _

theorem mem_all {r : Refinement} (member : r ∈ all) : r = project ∨ r = toggle ∨ r = scales ∨
    r = translate ∨ r = zoom ∨ r = inputs ∨ r = nearest ∨ r = latest := by
  simpa [all] using member

theorem names_signals {r : Refinement} (member : r ∈ all) (ctx : UnitContext) (s : Selection)
    (signals : List Signal) : names signals ⊆ names (r.signals ctx s signals) := by
  have appended : ∀ more, names signals ⊆ names (signals ++ more) := fun more => by simp
  rcases mem_all member with rfl | rfl | rfl | rfl | rfl | rfl | rfl | rfl
  · exact List.Subset.refl _
  · exact appended _
  · exact (names_scaleSignals ctx s signals).symm ▸ List.Subset.refl _
  · rw [signals_translate, names_moving]
    exact appended _
  · rw [signals_zoom, names_moving]
    exact appended _
  · exact (names_inputSignals ctx s signals).symm ▸ List.Subset.refl _
  · exact List.Subset.refl _
  · exact appended _

theorem names_topLevelSignals {r : Refinement} (member : r ∈ all) (ctx : UnitContext)
    (s : Selection) (signals : List Signal) :
    names signals ⊆ names (r.topLevelSignals ctx s signals) := by
  rcases mem_all member with rfl | rfl | rfl | rfl | rfl | rfl | rfl | rfl
  · exact List.Subset.refl _
  · exact List.Subset.refl _
  · exact names_topLevelScaleSignals ctx s signals
  · exact List.Subset.refl _
  · exact List.Subset.refl _
  · exact names_foldl (fun p _ before => names_addInput s before p) signals
  · exact List.Subset.refl _
  · exact names_topLevelLatest ctx s signals

theorem mem_applicable {r : Refinement} :
    r ∈ applicable s ↔ r ∈ all ∧ r.applies s = true := List.mem_filter

end Refinement

theorem Registry.lookup_builtIn {name type : String}
    (found : Registry.builtIn.lookup name type = .ok technique) :
    type = "single" ∧ technique = Point.single ∨ type = "multi" ∧ technique = Point.multi ∨
      type = "interval" ∧ technique = Brush.interval := by
  unfold lookup builtIn at found
  simp only [Keyed.ofList, Keyed.putAll, List.foldl_cons, List.foldl_nil, Keyed.find?_put] at found
  by_cases interval : type = "interval"
  · simp only [interval, if_true, Except.ok.injEq] at found
    exact .inr (.inr ⟨interval, found.symm⟩)
  by_cases multi : type = "multi"
  · simp [multi] at found
    exact .inr (.inl ⟨multi, found.symm⟩)
  by_cases single : type = "single"
  · simp [single] at found
    exact .inl ⟨single, found.symm⟩
  · simp [interval, multi, single, Keyed.find?, Keyed.empty, findEntry] at found

theorem Registry.lookup_interval {name type : String}
    (found : Registry.builtIn.lookup name type = .ok technique) (interval : type = "interval") :
    technique = Brush.interval := by
  rcases lookup_builtIn found with ⟨other, _⟩ | ⟨other, _⟩ | ⟨_, same⟩
  · rw [interval] at other
    exact absurd other (by decide)
  · rw [interval] at other
    exact absurd other (by decide)
  · exact same

theorem Registry.topLevelSignals_builtIn (found : Registry.builtIn.lookup s.name s.type = .ok technique) :
    technique.topLevelSignals ctx s signals = signals := by
  rcases Registry.lookup_builtIn found with ⟨_, rfl⟩ | ⟨_, rfl⟩ | ⟨_, rfl⟩ <;> rfl

namespace Selections

-- What is defined for a selection in the scope of its view and above it.
structure Defines (ctx : UnitContext) (s : Selection) (technique : Technique)
    (inside above : List String) : Prop where
  technique : names (technique.signals ctx s) ⊆ inside
  refined : ∀ r ∈ Refinement.applicable s, ∃ before, names (r.signals ctx s before) ⊆ inside
  lifted : ∀ r ∈ Refinement.applicable s, ∃ before, names (r.topLevelSignals ctx s before) ⊆ above

theorem Defines.weaken {inside above inside' above' : List String}
    (defines : Defines ctx s technique inside above) (within : inside ⊆ inside')
    (upward : above ⊆ above') : Defines ctx s technique inside' above' where
  technique := List.Subset.trans defines.technique within
  refined r member := (defines.refined r member).imp fun _ sub => List.Subset.trans sub within
  lifted r member := (defines.lifted r member).imp fun _ sub => List.Subset.trans sub upward

theorem addSignals_defines (found : Registry.builtIn.lookup s.name s.type = .ok technique)
    (done : addSignals ctx .builtIn signals s = .ok signals')
    (lifted : addTopLevelSignals ctx .builtIn top s = .ok top') :
    names signals ⊆ names signals' ∧ names top ⊆ names top' ∧
      Defines ctx s technique (names signals') (names top') := by
  unfold addSignals at done
  unfold addTopLevelSignals at lifted
  rw [found] at done lifted
  cases done
  cases lifted
  rw [Registry.topLevelSignals_builtIn found]
  have inner := fun r (member : r ∈ Refinement.applicable s) =>
    Refinement.names_signals (Refinement.mem_applicable.mp member).1 ctx s
  have outer := fun r (member : r ∈ Refinement.applicable s) =>
    Refinement.names_topLevelSignals (Refinement.mem_applicable.mp member).1 ctx s
  have grown := names_foldl inner (signals ++ technique.signals ctx s)
  rw [names_append] at grown
  rw [names_append]
  refine ⟨fun n member => ?_, names_foldl outer top, ⟨fun n member => ?_, ?_, ?_⟩⟩
  · exact List.mem_append_left _ (grown (List.mem_append_left _ member))
  · exact List.mem_append_left _ (grown (List.mem_append_right _ member))
  · intro r member
    obtain ⟨before, sub⟩ := names_foldl_of_mem inner member (signals ++ technique.signals ctx s)
    exact ⟨before, List.Subset.trans sub (List.subset_append_left _ _)⟩
  · exact fun r member => names_foldl_of_mem outer member top

end Selections
end Viewflow
