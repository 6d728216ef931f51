import Viewflow.Proofs.Selections.Parts

namespace Viewflow
open Output (Signal)
open Output.Signal (names names_append names_cons present_iff)

variable {ctx : UnitContext} {registry : Registry} {s : Selection} {values : List Selection}
  {selections : Selections} {signals before after : List Signal} {name : String}

-- Puts signals of these names where they are missing, and moves none that is there.
structure Supplies (add : List Signal → List Signal) (wanted : List String) : Prop where
  keeps : ∀ signals : List Signal, signals.Sublist (add signals)
  distinct : ∀ signals, (names signals).Nodup → (names (add signals)).Nodup
  mem_iff : ∀ signals name, name ∈ names (add signals) ↔ name ∈ names signals ∨ name ∈ wanted
  idle : ∀ signals, (∀ name ∈ wanted, name ∈ names signals) → add signals = signals

namespace Supplies

variable {α : Type} {as : List α} {act : List Signal → α → List Signal} {wanted : α → List String}
  {add add' : List Signal → List Signal} {given given' : List String} {signal : Signal}

theorem nothing : Supplies (fun signals => signals) [] where
  keeps := .refl
  distinct _ distinct := distinct
  mem_iff := by simp
  idle _ _ := rfl

theorem seq (one : Supplies add given) (two : Supplies add' given') :
    Supplies (fun signals => add' (add signals)) (given ++ given') where
  keeps signals := (one.keeps signals).trans (two.keeps _)
  distinct signals distinct := two.distinct _ (one.distinct signals distinct)
  mem_iff signals name := by rw [two.mem_iff, one.mem_iff, List.mem_append, or_assoc]
  idle signals there := by
    obtain ⟨first, second⟩ := List.forall_mem_append.mp there
    rw [one.idle signals first]
    exact two.idle signals second

theorem fold (each : ∀ a ∈ as, Supplies (fun signals => act signals a) (wanted a)) :
    Supplies (fun signals => as.foldl act signals) (as.flatMap wanted) := by
  induction as with
  | nil => exact nothing
  | cons a as ih =>
    obtain ⟨here, others⟩ := List.forall_mem_cons.mp each
    exact here.seq (ih others)

theorem single (keeps : ∀ signals : List Signal, signals.Sublist (add signals))
    (there : ∀ signals, signal.name ∈ names signals → add signals = signals)
    (absent : ∀ signals, signal.name ∉ names signals → (add signals).Perm (signal :: signals)) :
    Supplies add [signal.name] := by
  refine ⟨keeps, ?_, ?_, ?_⟩
  · intro signals distinct
    by_cases named : signal.name ∈ names signals
    · exact (there signals named).symm ▸ distinct
    · have same := (absent signals named).map (·.name)
      exact same.nodup_iff.mpr (List.nodup_cons.mpr ⟨named, distinct⟩)
  · intro signals name
    rw [List.mem_singleton]
    by_cases named : signal.name ∈ names signals
    · rw [there signals named]
      exact (or_iff_left_of_imp fun same => same ▸ named).symm
    · have same := (absent signals named).map (·.name)
      exact same.mem_iff.trans (List.mem_cons.trans or_comm)
  · exact fun signals wanted => there signals (wanted _ (List.mem_singleton.mpr rfl))

theorem behind (signal : Signal) :
    Supplies (fun signals => Refinement.addMissing signals signal) [signal.name] := by
  refine single ?_ ?_ ?_
  · intro signals
    unfold Refinement.addMissing
    split
    · exact .refl _
    · exact List.sublist_append_left ..
  · exact fun signals there => if_pos (present_iff.mpr there)
  · intro signals absent
    have added : Refinement.addMissing signals signal = signals ++ [signal] :=
      if_neg fun there => absent (present_iff.mp there)
    exact added ▸ List.perm_append_singleton signal signals

theorem front (named : signal.name = name) :
    Supplies (fun signals => if Signal.present signals name then signals else signal :: signals) [name] := by
  subst named
  refine single ?_ ?_ ?_
  · intro signals
    split
    · exact .refl _
    · exact List.sublist_cons_self ..
  · exact fun signals there => if_pos (present_iff.mpr there)
  · intro signals absent
    rw [if_neg fun there => absent (present_iff.mp there)]

end Supplies

namespace Refinement

def lifted (ctx : UnitContext) (s : Selection) (r : Refinement) : List String :=
  match r.name with
  | "scales" => if ctx.composed then s.scales.map s.dataSignal else []
  | "inputs" => s.project.map (inputSignal s)
  | "latest" => if ctx.composed then [s.unit] else []
  | _ => []

theorem supplies_scales (ctx : UnitContext) (s : Selection) :
    Supplies (topLevelScaleSignals ctx s) (scales.lifted ctx s) := by
  unfold topLevelScaleSignals
  change Supplies _ (if ctx.composed then s.scales.map s.dataSignal else [])
  split
  · rw [List.map_eq_flatMap]
    exact .fold fun c _ => .behind { name := s.dataSignal c }
  · exact .nothing

theorem supplies_inputs (ctx : UnitContext) (s : Selection) :
    Supplies (topLevelInputs ctx s) (inputs.lifted ctx s) := by
  change Supplies _ (s.project.map (inputSignal s))
  rw [List.map_eq_flatMap]
  refine .fold fun p _ => ?_
  unfold addInput
  exact .front rfl

theorem supplies_latest (ctx : UnitContext) (s : Selection) :
    Supplies (topLevelLatest ctx s) (latest.lifted ctx s) := by
  unfold topLevelLatest
  change Supplies _ (if ctx.composed then [s.unit] else [])
  split
  · exact .behind { name := s.unit, value := some .null }
  · exact .nothing

theorem supplies {r : Refinement} (member : r ∈ all) (ctx : UnitContext) (s : Selection) :
    Supplies (r.topLevelSignals ctx s) (r.lifted ctx s) := by
  rcases mem_all member with rfl | rfl | rfl | rfl | rfl | rfl | rfl | rfl
  · exact .nothing
  · exact .nothing
  · exact supplies_scales ctx s
  · exact .nothing
  · exact .nothing
  · exact supplies_inputs ctx s
  · exact .nothing
  · exact supplies_latest ctx s

end Refinement

namespace Selection

def Sets (s : Selection) (name : String) : Prop :=
  Refinement.inputs.applies s = true ∧ ∃ p ∈ s.project, name = Refinement.inputSignal s p

def lifted (ctx : UnitContext) (s : Selection) : List String :=
  (Refinement.applicable s).flatMap (Refinement.lifted ctx s)

theorem mem_lifted_iff : name ∈ s.lifted ctx ↔
    (Refinement.scales.applies s = true ∧ ctx.composed = true ∧ ∃ c ∈ s.scales, s.dataSignal c = name) ∨
      s.Sets name ∨ Refinement.latest.applies s = true ∧ ctx.composed = true ∧ s.unit = name := by
  have above : ∀ r ∈ Refinement.all, r.applies s = true → name ∈ r.lifted ctx s → name ∈ s.lifted ctx :=
    fun r known applies wanted =>
      List.mem_flatMap.mpr ⟨r, Refinement.mem_applicable.mpr ⟨known, applies⟩, wanted⟩
  have scaled : name ∈ Refinement.scales.lifted ctx s ↔
      ctx.composed = true ∧ ∃ c ∈ s.scales, s.dataSignal c = name := by
    change name ∈ (if ctx.composed then s.scales.map s.dataSignal else []) ↔ _
    split <;> simp [*]
  have counted : name ∈ Refinement.latest.lifted ctx s ↔ ctx.composed = true ∧ s.unit = name := by
    change name ∈ (if ctx.composed then [s.unit] else []) ↔ _
    split <;> simp [*, eq_comm]
  constructor
  · intro member
    obtain ⟨r, applicable, wanted⟩ := List.mem_flatMap.mp member
    obtain ⟨known, applies⟩ := Refinement.mem_applicable.mp applicable
    rcases Refinement.mem_all known with rfl | rfl | rfl | rfl | rfl | rfl | rfl | rfl
    · cases wanted
    · cases wanted
    · exact .inl ⟨applies, scaled.mp wanted⟩
    · cases wanted
    · cases wanted
    · obtain ⟨p, projected, same⟩ := List.mem_map.mp wanted
      exact .inr (.inl ⟨applies, p, projected, same.symm⟩)
    · cases wanted
    · exact .inr (.inr ⟨applies, counted.mp wanted⟩)
  · rintro (⟨applies, wanted⟩ | ⟨applies, p, projected, rfl⟩ | ⟨applies, wanted⟩)
    · exact above Refinement.scales (by simp [Refinement.all]) applies (scaled.mpr wanted)
    · exact above Refinement.inputs (by simp [Refinement.all]) applies (List.mem_map_of_mem projected)
    · exact above Refinement.latest (by simp [Refinement.all]) applies (counted.mpr wanted)

theorem mem_lifted (alone : ctx.composed = false) : name ∈ s.lifted ctx ↔ s.Sets name := by
  simp [mem_lifted_iff, alone]

theorem underscore_mem_lifted (wanted : name ∈ s.lifted ctx) : '_' ∈ name.toList := by
  have continued : ∀ part : String, '_' ∈ (s.name ++ "_" ++ part).toList := fun part => by simp
  rcases mem_lifted_iff.mp wanted with ⟨_, _, c, _, rfl⟩ | ⟨_, p, _, rfl⟩ | ⟨_, _, rfl⟩
  · exact Text.underscore_mem_identifier (continued _)
  · exact Text.underscore_mem_identifier (continued _)
  · simp [unit]

end Selection

theorem Registry.exists_lookup_iff {selection type : String} :
    (∃ technique, registry.lookup selection type = .ok technique) ↔ (registry.find? type).isSome = true := by
  unfold lookup
  cases registry.find? type <;> simp

-- Where each step fails or not by what it is given alone, a fold of them goes through when all of it fits.
theorem exists_foldlM_iff {α β : Type} {step : β → α → Except Failure β} {fits : α → Prop}
    (each : ∀ b a, (∃ b', step b a = .ok b') ↔ fits a) {as : List α} {b : β} :
    (∃ b', as.foldlM step b = .ok b') ↔ ∀ a ∈ as, fits a := by
  induction as generalizing b with
  | nil => exact ⟨fun _ => nofun, fun _ => ⟨b, rfl⟩⟩
  | cons a as ih =>
    rw [List.foldlM_cons, List.forall_mem_cons]
    constructor
    · intro ⟨last, done⟩
      obtain ⟨middle, first, rest⟩ := bind_eq_ok done
      exact ⟨(each b a).mp ⟨middle, first⟩, ih.mp ⟨last, rest⟩⟩
    · intro ⟨fit, others⟩
      obtain ⟨middle, first⟩ := (each b a).mpr fit
      rw [first]
      exact ih.mpr others

theorem foldlM_eq_ok_iff {α β : Type} {check : β → α → Except Failure β} {step : β → α → β} {fits : α → Prop}
    (each : ∀ b a b', check b a = .ok b' ↔ fits a ∧ b' = step b a) {as : List α} {b b' : β} :
    as.foldlM check b = .ok b' ↔ (∀ a ∈ as, fits a) ∧ b' = as.foldl step b := by
  induction as generalizing b with
  | nil =>
    constructor
    · intro done
      cases done
      exact ⟨nofun, rfl⟩
    · rintro ⟨_, rfl⟩
      rfl
  | cons a as ih =>
    rw [List.foldlM_cons, List.forall_mem_cons, List.foldl_cons]
    constructor
    · intro done
      obtain ⟨middle, first, rest⟩ := bind_eq_ok done
      obtain ⟨fit, rfl⟩ := (each b a middle).mp first
      obtain ⟨others, rfl⟩ := ih.mp rest
      exact ⟨⟨fit, others⟩, rfl⟩
    · rintro ⟨⟨fit, others⟩, rfl⟩
      rw [(each b a _).mpr ⟨fit, rfl⟩]
      exact ih.mpr ⟨others, rfl⟩

namespace Selections

def lift (ctx : UnitContext) (signals : List Signal) (s : Selection) : List Signal :=
  (Refinement.applicable s).foldl (fun signals r => r.topLevelSignals ctx s signals) signals

def above (ctx : UnitContext) (selections : Selections) (signals : List Signal) : List Signal :=
  let top := selections.values.foldl (lift ctx) signals
  if selections.isEmpty || Signal.present top "unit" then top else unitSignal :: top

def lifted (ctx : UnitContext) (selections : Selections) : List String :=
  selections.values.flatMap (Selection.lifted ctx) ++ if selections.isEmpty then [] else ["unit"]

def Registered (selections : Selections) : Prop :=
  ∀ s ∈ selections.values, (Registry.builtIn.find? s.type).isSome = true

theorem addTopLevelSignals_eq_ok_iff : addTopLevelSignals ctx .builtIn before s = .ok after ↔
    (Registry.builtIn.find? s.type).isSome = true ∧ after = lift ctx before s := by
  constructor
  · intro done
    obtain ⟨technique, found, done⟩ := bind_eq_ok done
    cases done
    rw [Registry.topLevelSignals_builtIn found]
    exact ⟨Registry.exists_lookup_iff.mp ⟨technique, found⟩, rfl⟩
  · rintro ⟨registered, rfl⟩
    obtain ⟨technique, found⟩ := Registry.exists_lookup_iff.mpr registered
    unfold addTopLevelSignals
    rw [found]
    exact congrArg (fun top => Except.ok (lift ctx top s)) (Registry.topLevelSignals_builtIn found)

-- What is added above a view depends on nothing that can fail, once every type is known.
theorem topLevelSignals_eq_ok_iff : selections.topLevelSignals ctx .builtIn before = .ok after ↔
    selections.Registered ∧ after = selections.above ctx before := by
  have each : ∀ before s after, addTopLevelSignals ctx .builtIn before s = .ok after ↔
      (Registry.builtIn.find? s.type).isSome = true ∧ after = lift ctx before s :=
    fun _ _ _ => addTopLevelSignals_eq_ok_iff
  have folded : ∀ top, selections.values.foldlM (addTopLevelSignals ctx .builtIn) before = .ok top ↔
      selections.Registered ∧ top = selections.values.foldl (lift ctx) before :=
    fun _ => foldlM_eq_ok_iff each
  unfold above
  constructor
  · intro done
    obtain ⟨top, lifted, done⟩ := bind_eq_ok done
    obtain ⟨registered, rfl⟩ := (folded top).mp lifted
    refine ⟨registered, ?_⟩
    split at done <;> cases done
    · next there => exact (if_pos there).symm
    · next absent => exact (if_neg absent).symm
  · rintro ⟨registered, rfl⟩
    unfold topLevelSignals
    rw [(folded _).mpr ⟨registered, rfl⟩]
    exact (apply_ite Except.ok ..).symm

theorem supplies_lift (ctx : UnitContext) (s : Selection) :
    Supplies (fun signals => lift ctx signals s) (s.lifted ctx) :=
  .fold fun _ member => Refinement.supplies (Refinement.mem_applicable.mp member).1 ctx s

theorem supplies_above (ctx : UnitContext) (selections : Selections) :
    Supplies (selections.above ctx) (selections.lifted ctx) := by
  have folded : Supplies (fun signals => selections.values.foldl (lift ctx) signals) _ :=
    .fold fun s _ => supplies_lift ctx s
  have shared : Supplies (fun top => if Signal.present top "unit" then top else unitSignal :: top) ["unit"] :=
    .front rfl
  unfold above lifted
  cases selections.isEmpty with
  | true => exact folded.seq .nothing
  | false => exact folded.seq shared

theorem unit_mem_lifted : "unit" ∈ selections.lifted ctx ↔ selections.isEmpty = false := by
  have own : "unit" ∉ selections.values.flatMap (Selection.lifted ctx) := by
    intro wanted
    obtain ⟨s, _, wanted⟩ := List.mem_flatMap.mp wanted
    exact absurd (Selection.underscore_mem_lifted wanted) (by decide)
  rw [lifted, List.mem_append, or_iff_right own]
  cases selections.isEmpty <;> simp

theorem topLevelSignals_cases (done : selections.topLevelSignals ctx registry before = .ok after) :
    ∃ top, selections.values.foldlM (addTopLevelSignals ctx registry) before = .ok top ∧
      (after = top ∨ "unit" ∉ names top ∧ after = unitSignal :: top) := by
  obtain ⟨top, lifted, done⟩ := bind_eq_ok done
  refine ⟨top, lifted, ?_⟩
  split at done
  · cases done
    exact .inl rfl
  · next absent =>
    cases done
    refine .inr ⟨fun there => absent ?_, rfl⟩
    rw [Bool.or_eq_true]
    exact .inr (present_iff.mpr there)

theorem nodup_topLevelSignals (done : selections.topLevelSignals ctx .builtIn before = .ok after)
    (distinct : (names before).Nodup) : (names after).Nodup := by
  obtain ⟨_, rfl⟩ := topLevelSignals_eq_ok_iff.mp done
  exact (supplies_above ctx selections).distinct before distinct

theorem sublist_topLevelSignals (done : selections.topLevelSignals ctx .builtIn before = .ok after) :
    before.Sublist after := by
  obtain ⟨_, rfl⟩ := topLevelSignals_eq_ok_iff.mp done
  exact (supplies_above ctx selections).keeps before

theorem mem_topLevelSignals (alone : ctx.composed = false)
    (done : selections.topLevelSignals ctx .builtIn before = .ok after) (other : name ≠ "unit") :
    name ∈ names after ↔ name ∈ names before ∨ ∃ s ∈ selections.values, s.Sets name := by
  obtain ⟨_, rfl⟩ := topLevelSignals_eq_ok_iff.mp done
  have shared : name ∉ if selections.isEmpty then [] else ["unit"] := by
    split <;> simp [other]
  rw [(supplies_above ctx selections).mem_iff, lifted, List.mem_append, or_iff_left shared, List.mem_flatMap]
  simp only [Selection.mem_lifted alone]

end Selections
end Viewflow
