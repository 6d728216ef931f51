import Viewflow.Proofs.Selections.Defined

namespace Viewflow
open Output (Handler Signal)
open Output.Signal (names names_append names_change names_cons)

namespace Json

def namedSignal (key : String) : Json → List String
  | .str n => if key = "signal" then [n] else []
  | _ => []

mutual

def references : Json → List String
  | .arr items => itemReferences items
  | .obj fields => fieldReferences fields
  | _ => []

def itemReferences : List Json → List String
  | [] => []
  | item :: rest => item.references ++ itemReferences rest

def fieldReferences : List (String × Json) → List String
  | [] => []
  | (key, value) :: rest => namedSignal key value ++ value.references ++ fieldReferences rest

end

@[simp] theorem references_str (text : String) : (Json.str text).references = [] := by simp [references]

@[simp] theorem references_signalReference (n : String) :
    (Output.signalReference n).references = [n] := by
  simp [Output.signalReference, references, fieldReferences, namedSignal]

theorem references_arr (items : List Json) : (Json.arr items).references = items.flatMap references := by
  unfold references
  induction items with
  | nil => rfl
  | cons item rest ih => rw [itemReferences, ih, List.flatMap_cons]

@[simp] theorem references_texts {α : Type} (as : List α) (text : α → String) :
    (Json.arr (as.map fun a => .str (text a))).references = [] := by
  simp [references_arr, List.flatMap_map]

end Json

-- The events that the user wrote set off the tuples of point selections, and what switches items on
-- and off. A brush is driven by signals and by streams of the pointer.
def Selection.Tells (s : Selection) (signal : Signal) (h : Handler) : Prop :=
  s.type ≠ "interval" ∧ (signal.name = s.tuple ∨ signal.name = Refinement.toggleSignal s) ∧
    h.events = s.events

structure Grounded (values : List Selection) (inside above : List String) (signal : Signal) : Prop where
  hears : ∀ h ∈ signal.handlers, (∃ s ∈ values, s.Tells signal h) ∨ h.events.references ⊆ inside
  pushes : signal.pushesOut = true → signal.name ∈ above

variable {ctx : UnitContext} {s : Selection} {technique : Technique} {values : List Selection}
  {inside above : List String} {signals signals' top top' gesture : List Signal} {signal : Signal}
  {delta name : String} {update : Channel → String}

namespace Grounded

theorem on (grounded : Grounded values inside above signal) (defined : name ∈ inside) (update : String) :
    Grounded values inside above (signal.on (.onSignal name update)) := by
  refine ⟨?_, grounded.pushes⟩
  intro h member
  rcases List.mem_append.mp member with old | new
  · exact grounded.hears h old
  · rw [List.mem_singleton.mp new]
    exact .inr (by simpa [Handler.onSignal] using defined)

theorem of_kept (kept : signal.pushesOut = false)
    (hears : ∀ h ∈ signal.handlers, (∃ s ∈ values, s.Tells signal h) ∨ h.events.references ⊆ inside) :
    Grounded values inside above signal := by
  refine ⟨hears, ?_⟩
  intro pushes
  rw [kept] at pushes
  cases pushes

theorem of_silent (silent : signal.handlers = []) (kept : signal.pushesOut = false) :
    Grounded values inside above signal := by
  refine of_kept kept ?_
  intro h member
  rw [silent] at member
  cases member

theorem of_references (kept : signal.pushesOut = false)
    (hears : ∀ h ∈ signal.handlers, h.events.references ⊆ inside) :
    Grounded values inside above signal :=
  of_kept kept fun h member => .inr (hears h member)

theorem of_told (listed : s ∈ values) (kept : signal.pushesOut = false)
    (told : ∀ h ∈ signal.handlers, s.Tells signal h) : Grounded values inside above signal :=
  of_kept kept fun h member => .inl ⟨s, listed, told h member⟩

end Grounded

def AllGrounded (values : List Selection) (inside above : List String) (signals : List Signal) : Prop :=
  ∀ signal ∈ signals, Grounded values inside above signal

theorem allGrounded_append : AllGrounded values inside above (signals ++ gesture) ↔
    AllGrounded values inside above signals ∧ AllGrounded values inside above gesture :=
  List.forall_mem_append

namespace Refinement

theorem grounded_moving (all : AllGrounded values inside above (signals ++ gesture))
    (defined : delta ∈ inside) :
    AllGrounded values inside above (moving s delta update gesture signals) := by
  unfold moving onPositions
  refine List.foldlRecOn _ _ all ?_
  intro before grounded c _
  exact Signal.forall_change grounded fun _ _ one => one.on defined _

theorem grounded_panSignals : AllGrounded values inside above (panSignals ctx s) := by
  simp only [AllGrounded, panSignals, List.forall_mem_cons]
  refine ⟨.of_references rfl ?_, .of_references rfl ?_, ?_⟩ <;> simp

theorem grounded_wheelSignals : AllGrounded values inside above (wheelSignals ctx s) := by
  simp only [AllGrounded, wheelSignals, List.forall_mem_cons]
  refine ⟨.of_references rfl ?_, .of_references rfl ?_, ?_⟩ <;> simp [zoomEvents]

theorem mem_topLevelScaleSignals {c : Channel} (composed : ctx.composed = true) (driven : c ∈ s.scales)
    (signals : List Signal) : s.dataSignal c ∈ names (topLevelScaleSignals ctx s signals) := by
  unfold topLevelScaleSignals
  rw [if_pos composed]
  obtain ⟨before, sub⟩ := Signal.names_foldl_of_mem
    (fun c _ before => (names_addMissing before { name := s.dataSignal c }).1) driven signals
  exact sub (names_addMissing before _).2

theorem grounded_scaleSignals (upward : names (topLevelScaleSignals ctx s top) ⊆ above)
    (all : AllGrounded values inside above signals) :
    AllGrounded values inside above (scaleSignals ctx s signals) := by
  unfold scaleSignals
  split
  · next composed =>
    refine List.foldlRecOn _ _ all ?_
    intro before grounded c driven
    refine Signal.forall_change grounded ?_
    intro signal same one
    exact ⟨one.hears, fun _ => same ▸ upward (mem_topLevelScaleSignals composed driven top)⟩
  · exact all

theorem grounded_inputSignals (ctx : UnitContext) (all : AllGrounded values inside above signals) :
    AllGrounded values inside above (inputSignals ctx s signals) := by
  refine Signal.forall_change all ?_
  intro signal _ one
  refine ⟨?_, one.pushes⟩
  intro h none
  cases none

theorem mem_topLevelLatest (composed : ctx.composed = true) (signals : List Signal) :
    s.unit ∈ names (topLevelLatest ctx s signals) := by
  unfold topLevelLatest
  rw [if_pos composed]
  exact (names_addMissing signals _).2

theorem grounded_latestSignals (upward : names (topLevelLatest ctx s top) ⊆ above)
    (defined : s.tuple ∈ inside) (all : AllGrounded values inside above signals) :
    AllGrounded values inside above (latestSignals ctx s signals) := by
  have waits : (Json.references (Handler.onSignal s.tuple ctx.quotedUnit).events) ⊆ inside := by
    simpa [Handler.onSignal] using defined
  refine allGrounded_append.mpr ⟨all, List.forall_mem_singleton.mpr ?_⟩
  split
  · next composed =>
    exact ⟨fun h member => .inr (List.mem_singleton.mp member ▸ waits),
      fun _ => upward (mem_topLevelLatest composed top)⟩
  · exact .of_references rfl fun h member => List.mem_singleton.mp member ▸ waits

theorem grounded_signals {r : Refinement} (member : r ∈ applicable s) (listed : s ∈ values)
    (tuple : s.tuple ∈ inside) (within : names (r.signals ctx s signals) ⊆ inside)
    (upward : names (r.topLevelSignals ctx s top) ⊆ above)
    (all : AllGrounded values inside above signals) :
    AllGrounded values inside above (r.signals ctx s signals) := by
  obtain ⟨known, applies⟩ := mem_applicable.mp member
  rcases mem_all known with rfl | rfl | rfl | rfl | rfl | rfl | rfl | rfl
  · exact all
  · have multi : s.type = "multi" := by
      simp only [toggle, Bool.and_eq_true, beq_iff_eq] at applies
      exact applies.1
    refine allGrounded_append.mpr ⟨all, List.forall_mem_singleton.mpr (.of_told listed rfl ?_)⟩
    intro h told
    rw [List.mem_singleton.mp told]
    exact ⟨by simp [multi], .inr rfl, rfl⟩
  · exact grounded_scaleSignals upward all
  · rw [signals_translate] at within ⊢
    rw [names_moving] at within
    exact grounded_moving (allGrounded_append.mpr ⟨all, grounded_panSignals⟩)
      (within (by simp [panSignals]))
  · rw [signals_zoom] at within ⊢
    rw [names_moving] at within
    exact grounded_moving (allGrounded_append.mpr ⟨all, grounded_wheelSignals⟩)
      (within (by simp [wheelSignals]))
  · exact grounded_inputSignals ctx all
  · exact all
  · exact grounded_latestSignals upward tuple all

end Refinement

theorem Point.grounded_signals (ctx : UnitContext) (listed : s ∈ values) (plain : s.type ≠ "interval") :
    AllGrounded values inside above (Point.signals ctx s) := by
  refine List.forall_mem_singleton.mpr (.of_told listed rfl ?_)
  intro h told
  rw [List.mem_singleton.mp told]
  exact ⟨plain, .inl rfl, rfl⟩

namespace Brush

variable {c : Channel}

theorem dragHandlers_references (c : Channel) (b : EventStream.Between) :
    ∀ h ∈ dragHandlers s c b, h.events.references = [] := by
  simp [dragHandlers]

theorem grounded_channelSignals (trigger : s.bindsScales = false → scaleTrigger s ∈ inside)
    (within : names (channelSignals ctx s c) ⊆ inside) :
    AllGrounded values inside above (channelSignals ctx s c) := by
  unfold channelSignals at within ⊢
  cases binds : s.bindsScales with
  | true =>
    rw [if_pos rfl]
    exact List.forall_mem_singleton.mpr (.of_silent rfl rfl)
  | false =>
    rw [binds, if_neg Bool.false_ne_true] at within
    rw [if_neg Bool.false_ne_true]
    have visual : s.visualSignal c ∈ inside := within (by simp)
    refine List.forall_mem_cons.mpr ⟨.of_references rfl ?_,
      List.forall_mem_singleton.mpr (.of_references rfl ?_)⟩
    · intro h member
      rcases List.mem_append.mp member with drag | rescale
      · obtain ⟨b, _, drag⟩ := List.mem_flatMap.mp drag
        rw [dragHandlers_references c b h drag]
        exact List.nil_subset _
      · rw [List.mem_singleton.mp rescale]
        simpa [Handler.onSignal] using trigger binds
    · intro h member
      rw [List.mem_singleton.mp member]
      simpa [Handler.onSignal] using visual

theorem dataSignal_mem (ctx : UnitContext) (s : Selection) (c : Channel) :
    s.dataSignal c ∈ names (channelSignals ctx s c) := by
  unfold channelSignals
  split <;> simp

theorem visualSignal_mem (ctx : UnitContext) (drawn : s.bindsScales = false) (c : Channel) :
    s.visualSignal c ∈ names (channelSignals ctx s c) := by
  simp [channelSignals, drawn]

theorem names_channelSignals {p : Channel × String} (member : p ∈ positions s) :
    names (channelSignals ctx s p.1) ⊆ names (Brush.signals ctx s) := by
  have some : (positions s).isEmpty = false := by
    cases none : positions s with
    | nil =>
      rw [none] at member
      cases member
    | cons _ _ => rfl
  intro n defined
  unfold Brush.signals
  obtain ⟨signal, listed, rfl⟩ := List.mem_map.mp defined
  rw [some, if_neg Bool.false_ne_true, names_append, names_append]
  exact List.mem_append_left _ (List.mem_append_left _
    (List.mem_map_of_mem (List.mem_flatMap.mpr ⟨p, member, listed⟩)))

theorem grounded_signals (within : names (Brush.signals ctx s) ⊆ inside) :
    AllGrounded values inside above (Brush.signals ctx s) := by
  have channels := fun p (member : p ∈ positions s) =>
    List.Subset.trans (names_channelSignals member) within
  unfold Brush.signals at within ⊢
  split
  · refine allGrounded_append.mpr ⟨?_, List.forall_mem_singleton.mpr (.of_silent rfl rfl)⟩
    split
    · exact fun _ absent => nomatch absent
    · exact List.forall_mem_singleton.mpr (.of_silent rfl rfl)
  · next some =>
    rw [if_neg some] at within
    have trigger : s.bindsScales = false → scaleTrigger s ∈ inside := fun binds =>
      within (by simp [binds])
    refine allGrounded_append.mpr ⟨allGrounded_append.mpr ⟨?_, ?_⟩,
      List.forall_mem_singleton.mpr (.of_references rfl ?_)⟩
    · intro signal member
      obtain ⟨p, placed, member⟩ := List.mem_flatMap.mp member
      exact grounded_channelSignals trigger (channels p placed) signal member
    · split
      · exact fun _ absent => nomatch absent
      · exact List.forall_mem_singleton.mpr (.of_silent rfl rfl)
    · intro h member n waits
      rw [List.mem_singleton.mp member] at waits
      simp only [Json.references_arr, List.flatMap_map, Json.references_signalReference,
        List.mem_flatMap, List.mem_singleton] at waits
      obtain ⟨p, placed, rfl⟩ := waits
      exact channels p placed (dataSignal_mem ctx s p.1)

end Brush

namespace Selections

theorem tuple_mem (found : Registry.builtIn.lookup s.name s.type = .ok technique) (ctx : UnitContext) :
    s.tuple ∈ names (technique.signals ctx s) := by
  rcases Registry.lookup_builtIn found with ⟨_, rfl⟩ | ⟨_, rfl⟩ | ⟨_, rfl⟩
  · exact List.mem_singleton.mpr rfl
  · exact List.mem_singleton.mpr rfl
  · change s.tuple ∈ names (Brush.signals ctx s)
    unfold Brush.signals
    split <;> simp

theorem grounded_technique (found : Registry.builtIn.lookup s.name s.type = .ok technique)
    (listed : s ∈ values) (within : names (technique.signals ctx s) ⊆ inside) :
    AllGrounded values inside above (technique.signals ctx s) := by
  rcases Registry.lookup_builtIn found with ⟨single, rfl⟩ | ⟨multi, rfl⟩ | ⟨_, rfl⟩
  · exact Point.grounded_signals ctx listed (by simp [single])
  · exact Point.grounded_signals ctx listed (by simp [multi])
  · exact Brush.grounded_signals within

theorem grounded_refined {rs : List Refinement} (members : ∀ r ∈ rs, r ∈ Refinement.applicable s)
    (listed : s ∈ values) (tuple : s.tuple ∈ inside)
    (within : names (rs.foldl (fun signals r => r.signals ctx s signals) signals) ⊆ inside)
    (upward : ∀ r ∈ rs, ∃ before, names (r.topLevelSignals ctx s before) ⊆ above)
    (all : AllGrounded values inside above signals) :
    AllGrounded values inside above (rs.foldl (fun signals r => r.signals ctx s signals) signals) := by
  induction rs generalizing signals with
  | nil => exact all
  | cons r rs ih =>
    obtain ⟨here, later⟩ := List.forall_mem_cons.mp members
    obtain ⟨⟨top, lifted⟩, upward⟩ := List.forall_mem_cons.mp upward
    have grows := Signal.names_foldl (fun r member =>
      Refinement.names_signals (Refinement.mem_applicable.mp (later r member)).1 ctx s)
      (r.signals ctx s signals)
    exact ih later within upward
      (Refinement.grounded_signals here listed tuple (List.Subset.trans grows within) lifted all)

theorem addSignals_grounded (found : Registry.builtIn.lookup s.name s.type = .ok technique)
    (done : addSignals ctx .builtIn signals s = .ok signals') (listed : s ∈ values)
    (defines : Defines ctx s technique inside above) (within : names signals' ⊆ inside)
    (all : AllGrounded values inside above signals) : AllGrounded values inside above signals' := by
  unfold addSignals at done
  rw [found] at done
  cases done
  rw [names_append] at within
  have tuple := defines.technique (tuple_mem found ctx)
  refine allGrounded_append.mpr ⟨?_, List.forall_mem_singleton.mpr (.of_references rfl ?_)⟩
  · exact grounded_refined (fun _ member => member) listed tuple
      (List.Subset.trans (List.subset_append_left _ _) within) defines.lifted
      (allGrounded_append.mpr ⟨all, grounded_technique found listed defines.technique⟩)
  · intro h member
    rw [List.mem_singleton.mp member]
    simpa [Handler.onSignal] using tuple

-- Along the selections of a view: what each defines stays, and in the end every handler and every
-- push finds its signal.
theorem foldlM_defines (done : values.foldlM (addSignals ctx .builtIn) signals = .ok signals')
    (lifted : values.foldlM (addTopLevelSignals ctx .builtIn) top = .ok top') :
    names signals ⊆ names signals' ∧ names top ⊆ names top' ∧
      ∀ s ∈ values, ∃ technique, Registry.builtIn.lookup s.name s.type = .ok technique ∧
        Defines ctx s technique (names signals') (names top') := by
  induction values generalizing signals top with
  | nil =>
    cases done
    cases lifted
    exact ⟨List.Subset.refl _, List.Subset.refl _, fun _ absent => nomatch absent⟩
  | cons s values ih =>
    rw [List.foldlM_cons] at done lifted
    obtain ⟨signals₁, first, done⟩ := bind_eq_ok done
    obtain ⟨top₁, first', lifted⟩ := bind_eq_ok lifted
    obtain ⟨technique, found, _⟩ := bind_eq_ok first
    obtain ⟨within, upward, defines⟩ := addSignals_defines found first first'
    obtain ⟨within', upward', others⟩ := ih done lifted
    exact ⟨List.Subset.trans within within', List.Subset.trans upward upward',
      List.forall_mem_cons.mpr ⟨⟨technique, found, defines.weaken within' upward'⟩, others⟩⟩

theorem foldlM_grounded {rest : List Selection} (sub : rest ⊆ values)
    (done : rest.foldlM (addSignals ctx .builtIn) signals = .ok signals')
    (lifted : rest.foldlM (addTopLevelSignals ctx .builtIn) top = .ok top')
    (within : names signals' ⊆ inside) (upward : names top' ⊆ above)
    (all : AllGrounded values inside above signals) : AllGrounded values inside above signals' := by
  induction rest generalizing signals top with
  | nil =>
    cases done
    exact all
  | cons s rest ih =>
    obtain ⟨_, _, defines⟩ := foldlM_defines done lifted
    obtain ⟨technique, found, defines⟩ := defines s (List.mem_cons_self ..)
    rw [List.foldlM_cons] at done lifted
    obtain ⟨signals₁, first, done⟩ := bind_eq_ok done
    obtain ⟨top₁, first', lifted⟩ := bind_eq_ok lifted
    obtain ⟨grows, _, _⟩ := foldlM_defines done lifted
    obtain ⟨here, sub⟩ := List.cons_subset.mp sub
    exact ih sub done lifted (addSignals_grounded found first here (defines.weaken within upward)
      (List.Subset.trans grows within) all)

end Selections
end Viewflow
