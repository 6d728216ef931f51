import Viewflow.Proofs.Selections.Brushed
import Viewflow.Proofs.Selections.Lifted
import Viewflow.Proofs.Views.Scene

namespace Viewflow
open Viewflow.Compilation (addUnit addUnits Scene)
open Viewflow.Flow (Forest Outputs)
open Output (Dataset Mark Signal)
open Output.Signal (names)

namespace Output.Mark

mutual

def everySignal : Mark → List Signal
  | .mk _ _ _ _ _ _ signals marks => signals ++ signalsOfAll marks

def signalsOfAll : List Mark → List Signal
  | [] => []
  | m :: rest => m.everySignal ++ signalsOfAll rest

end

end Output.Mark

structure Scope where
  unit : Compilation.Unit
  source : String
  signals : List Signal
  marks : List Mark

namespace Scope

def context (scope : Scope) : UnitContext := scope.unit.context

def selections (scope : Scope) : List Selection := scope.unit.selections.values

def primary (scope : Scope) : Mark :=
  Mark.drawn (scope.context.nameOf "marks") scope.context.view.mark scope.source

def framed (scope : Scope) : List Mark := scope.unit.framed scope.signals scope.marks

def loose (scope : Scope) : List Signal := if scope.context.composed then [] else scope.signals

structure Made (registry : Registry) (forest : Forest) (u : Compilation.Unit) (o : Outputs)
    (scope : Scope) : Prop where
  unit : scope.unit = u
  source : ∃ main, forest.step o.main = .output main ∧ main.source = scope.source
  signals : u.selections.signals u.context registry [] = .ok scope.signals
  marks : u.selections.marks u.context registry [scope.primary] = .ok scope.marks

def Lifts (scope : Scope) (above : List String) : Prop :=
  ∃ before top, scope.selections.foldlM (Selections.addTopLevelSignals scope.context .builtIn) before =
    .ok top ∧ names top ⊆ above

theorem Lifts.weaken {scope : Scope} {above above' : List String} (lifts : scope.Lifts above)
    (sub : above ⊆ above') : scope.Lifts above' := by
  obtain ⟨before, top, lifted, within⟩ := lifts
  exact ⟨before, top, lifted, List.Subset.trans within sub⟩

end Scope

namespace Selections

variable {ctx : UnitContext} {selections : Selections} {before after : List Signal}

theorem topLevelSignals_parts (done : selections.topLevelSignals ctx .builtIn before = .ok after) :
    ∃ top, selections.values.foldlM (addTopLevelSignals ctx .builtIn) before = .ok top ∧
      names top ⊆ names after := by
  obtain ⟨top, lifted, rfl | ⟨_, rfl⟩⟩ := topLevelSignals_cases done
  · exact ⟨_, lifted, List.Subset.refl _⟩
  · exact ⟨_, lifted, List.subset_cons_self _ _⟩

theorem stores_spec (selections : Selections) (ds : List Dataset) :
    ∃ more, selections.stores ds = ds ++ more ∧
      (∀ d ∈ more, ∃ s ∈ selections.values, d = Dataset.named s.store) ∧
      ∀ s ∈ selections.values, s.store ∈ Dataset.names (ds ++ more) := by
  unfold stores
  induction selections.values generalizing ds with
  | nil => exact ⟨[], by simp⟩
  | cons s rest ih =>
    obtain ⟨more, stored, named, all⟩ := ih (addStore ds s)
    rw [List.foldl_cons, stored]
    by_cases known : (Dataset.names ds).contains s.store = true
    · have same : addStore ds s = ds := if_pos known
      rw [same] at all ⊢
      refine ⟨more, rfl, ?_, List.forall_mem_cons.mpr ⟨?_, all⟩⟩
      · intro d member
        obtain ⟨t, listed, stands⟩ := named d member
        exact ⟨t, List.mem_cons_of_mem _ listed, stands⟩
      · rw [Dataset.names, List.map_append]
        exact List.mem_append_left _ (List.contains_iff_mem.mp known)
    · have added : addStore ds s = ds ++ [Dataset.named s.store] := if_neg known
      rw [added, List.append_assoc] at all ⊢
      refine ⟨_, rfl, ?_, List.forall_mem_cons.mpr ⟨?_, all⟩⟩
      · refine List.forall_mem_cons.mpr ⟨⟨s, List.mem_cons_self .., rfl⟩, ?_⟩
        intro d member
        obtain ⟨t, listed, stands⟩ := named d member
        exact ⟨t, List.mem_cons_of_mem _ listed, stands⟩
      · simp [Dataset.names, Dataset.named]

end Selections

namespace Compilation

variable {forest : Forest} {scene scene' : Scene} {u : Unit} {o : Outputs}
  {pairs : List (Unit × Outputs)}

theorem addUnit_scope (done : addUnit .builtIn forest scene u o = .ok scene') :
    ∃ scope : Scope, scope.Made .builtIn forest u o ∧
      scene'.data = u.selections.stores scene.data ∧
      scene'.unitSignals = scene.unitSignals ++ scope.loose ∧
      scene'.marks = scene.marks ++ scope.framed ∧
      names scene.topSignals ⊆ names scene'.topSignals ∧ scope.Lifts (names scene'.topSignals) := by
  obtain ⟨main, marks, signals, top, output, made, heard, lifted, rfl⟩ := addUnit_parts done
  obtain ⟨top', lifts, within⟩ := Selections.topLevelSignals_parts lifted
  obtain ⟨_, grows, _⟩ := Selections.foldlM_defines heard lifts
  exact ⟨⟨u, main.source, signals, marks⟩, ⟨rfl, ⟨main, output, rfl⟩, heard, made⟩, rfl, rfl, rfl,
    List.Subset.trans grows within, _, top', lifts, within⟩

def Scopes (registry : Registry) (forest : Forest) (pairs : List (Unit × Outputs))
    (scopes : List Scope) : Prop :=
  List.Forall₂ (fun pair scope => scope.Made registry forest pair.1 pair.2) pairs scopes

namespace Scopes

variable {registry : Registry} {scopes : List Scope} (brought : Scopes registry forest pairs scopes)
include brought

theorem exists_pair {scope : Scope} (member : scope ∈ scopes) :
    ∃ u o, (u, o) ∈ pairs ∧ scope.Made registry forest u o := by
  obtain ⟨pair, paired, made⟩ := forall₂_exists brought member
  exact ⟨pair.1, pair.2, paired, made⟩

theorem units_eq : scopes.map (·.unit) = pairs.map Prod.fst := by
  unfold Scopes at brought
  induction brought with
  | nil => rfl
  | cons first _ ih => rw [List.map_cons, List.map_cons, ih, first.unit]

end Scopes

theorem addUnits_scopes (done : addUnits .builtIn forest scene pairs = .ok scene') :
    ∃ scopes : List Scope, Scopes .builtIn forest pairs scopes ∧
      (∃ stores, scene'.data = scene.data ++ stores ∧
        (∀ d ∈ stores, ∃ scope ∈ scopes, ∃ s ∈ scope.selections, d = Dataset.named s.store) ∧
        ∀ scope ∈ scopes, ∀ s ∈ scope.selections, s.store ∈ Dataset.names scene'.data) ∧
      scene'.unitSignals = scene.unitSignals ++ scopes.flatMap Scope.loose ∧
      scene'.marks = scene.marks ++ scopes.flatMap Scope.framed ∧
      names scene.topSignals ⊆ names scene'.topSignals ∧
      ∀ scope ∈ scopes, scope.Lifts (names scene'.topSignals) := by
  unfold addUnits at done
  induction pairs generalizing scene with
  | nil =>
    cases done
    exact ⟨[], .nil, ⟨[], by simp⟩, by simp⟩
  | cons pair pairs ih =>
    rw [List.foldlM_cons] at done
    obtain ⟨middle, first, rest⟩ := bind_eq_ok done
    obtain ⟨scope, made, data, loose, framed, grows, lifts⟩ := addUnit_scope first
    obtain ⟨scopes, others, ⟨stores, data', named, all⟩, loose', framed', grows', lifts'⟩ := ih rest
    obtain ⟨more, added, named₁, all₁⟩ := pair.1.selections.stores_spec scene.data
    have own : scope.selections = pair.1.selections.values := congrArg (·.selections.values) made.unit
    rw [data, added] at data'
    refine ⟨scope :: scopes, .cons made others, ⟨more ++ stores, ?_, ?_, ?_⟩, ?_, ?_,
      List.Subset.trans grows grows', List.forall_mem_cons.mpr ⟨lifts.weaken grows', lifts'⟩⟩
    · rw [data', List.append_assoc]
    · intro d member
      rcases List.mem_append.mp member with here | later
      · obtain ⟨s, listed, same⟩ := named₁ d here
        exact ⟨scope, List.mem_cons_self .., s, own ▸ listed, same⟩
      · obtain ⟨other, member, stands⟩ := named d later
        exact ⟨other, List.mem_cons_of_mem _ member, stands⟩
    · refine List.forall_mem_cons.mpr ⟨?_, all⟩
      intro s listed
      rw [data', Dataset.names, List.map_append]
      exact List.mem_append_left _ (all₁ s (own ▸ listed))
    · rw [loose', loose, List.flatMap_cons, List.append_assoc]
    · rw [framed', framed, List.flatMap_cons, List.append_assoc]

end Compilation

namespace Scope

variable {scope : Scope} {forest : Forest} {u : Compilation.Unit} {o : Outputs} {above : List String}

theorem Made.surrounds (made : scope.Made .builtIn forest u o) :
    Selections.Surrounds scope.context scope.selections [scope.primary] scope.marks := by
  have marks := made.marks
  rw [← made.unit] at marks
  exact .foldlM (List.Subset.refl _) marks

theorem Made.everySignal_marks (made : scope.Made .builtIn forest u o) {m : Mark}
    (member : m ∈ scope.marks) : m.everySignal = [] := by
  rcases made.surrounds.adds m member with first | adds
  · rw [List.mem_singleton.mp first]
    simp [primary, Mark.drawn, Mark.everySignal, Mark.signalsOfAll]
  · cases adds with
    | cell _ => simp [Refinement.cell, Mark.everySignal, Mark.signalsOfAll]
    | background _ _ _ => simp [Brush.background, Brush.clipped, Mark.everySignal, Mark.signalsOfAll]
    | foreground _ _ _ => simp [Brush.foreground, Brush.clipped, Mark.everySignal, Mark.signalsOfAll]

theorem loose_subset {scopes : List Scope} (member : scope ∈ scopes)
    (apart : scope.context.composed = false) : scope.signals ⊆ scopes.flatMap Scope.loose := by
  intro signal there
  exact List.mem_flatMap.mpr ⟨scope, member, by simpa [loose, apart] using there⟩

theorem Made.defines (made : scope.Made .builtIn forest u o) (lifts : scope.Lifts above) {s : Selection}
    (listed : s ∈ scope.selections) :
    ∃ technique, Registry.builtIn.lookup s.name s.type = .ok technique ∧
      Selections.Defines scope.context s technique (names scope.signals) above := by
  obtain ⟨before, top, lifted, within⟩ := lifts
  have heard := made.signals
  rw [← made.unit] at heard
  obtain ⟨_, _, defines⟩ := Selections.foldlM_defines heard lifted
  obtain ⟨technique, found, defines⟩ := defines s listed
  exact ⟨technique, found, defines.weaken (List.Subset.refl _) within⟩

theorem Made.grounded (made : scope.Made .builtIn forest u o) (lifts : scope.Lifts above) :
    AllGrounded scope.selections (names scope.signals) above scope.signals := by
  obtain ⟨before, top, lifted, within⟩ := lifts
  have heard := made.signals
  rw [← made.unit] at heard
  exact Selections.foldlM_grounded (List.Subset.refl _) heard lifted (List.Subset.refl _) within
    fun _ absent => nomatch absent

theorem Made.brushed (made : scope.Made .builtIn forest u o) (lifts : scope.Lifts above) {s : Selection}
    (listed : s ∈ scope.selections) (safe : Text.identifier s.name = s.name)
    (interval : s.type = "interval") (drawn : s.bindsScales = false) :
    Brush.Reads scope.context s (names scope.signals) := by
  obtain ⟨technique, found, defines⟩ := made.defines lifts listed
  rw [Registry.lookup_interval found interval] at defines
  refine Brush.reads safe drawn ?_
  intro c positional projects
  obtain ⟨field, placed⟩ := Brush.exists_position projects positional
  exact defines.technique (Brush.names_channelSignals placed
    (Brush.visualSignal_mem scope.context drawn c))

theorem Made.latest (made : scope.Made .builtIn forest u o) (lifts : scope.Lifts above) {s : Selection}
    (listed : s ∈ scope.selections) (single : s.resolve = .single) :
    s.unit ∈ names scope.signals ∧ (scope.context.composed = true → s.unit ∈ above) := by
  obtain ⟨technique, _, defines⟩ := made.defines lifts listed
  have applies : Refinement.latest ∈ Refinement.applicable s :=
    Refinement.mem_applicable.mpr ⟨by simp [Refinement.all], by simp [Refinement.latest, single]⟩
  obtain ⟨before, inside⟩ := defines.refined _ applies
  obtain ⟨top, lifted⟩ := defines.lifted _ applies
  refine ⟨inside ?_, fun composed => lifted (Refinement.mem_topLevelLatest composed top)⟩
  simp only [Refinement.latest, Refinement.latestSignals, Output.Signal.names_append]
  split <;> simp

end Scope
end Viewflow
