import Viewflow.Proofs.Referring
import Viewflow.Proofs.Selections.Driven

namespace Viewflow
open Viewflow.Compilation (Scene)
open Viewflow.Flow (Demand Forest Outputs)
open Output (Mark Signal)
open Output.Signal (names)

variable {config : Config} {registry : Registry} {spec : Spec} {us : List Compilation.Unit} {c : Compiled}
  {index : Index} {scope : Scope} {scopes : List Scope} {s : Selection}

namespace Compilation

def contribution (registry : Registry) (index : Index) (u : Unit) :
    Except Failure (List (String × String)) := do
  return drivenScales u ++ (← followingScales registry index u)

def contributions (registry : Registry) (index : Index) (us : List Unit) :
    Except Failure (List (String × String)) := do
  return (← us.mapM (contribution registry index)).flatten

theorem addScaleDomains_eq (registry : Registry) (index : Index) (domains : Keyed String String)
    (u : Unit) : addScaleDomains registry index domains u =
      (contribution registry index u).map domains.putAll := by
  unfold addScaleDomains contribution
  cases followingScales registry index u with
  | error _ => rfl
  | ok following => simp [Keyed.putAll, bind, Except.bind, Except.map, pure, Except.pure]

theorem scaleDomains_eq (registry : Registry) (index : Index) (us : List Unit) :
    scaleDomains registry index us = (contributions registry index us).map Keyed.ofList := by
  have general : ∀ domains : Keyed String String, us.foldlM (addScaleDomains registry index) domains =
      (contributions registry index us).map domains.putAll := by
    unfold contributions
    induction us with
    | nil => exact fun domains => rfl
    | cons u us ih =>
      intro domains
      rw [List.foldlM_cons, List.mapM_cons, addScaleDomains_eq]
      cases contribution registry index u with
      | error _ => rfl
      | ok own =>
        refine (ih (domains.putAll own)).trans ?_
        cases us.mapM (contribution registry index) with
        | error _ => rfl
        | ok others =>
          simp [Keyed.putAll, bind, Except.bind, Except.map, pure, Except.pure]
  exact general .empty

theorem scaleDomains_spec {domains : Keyed String String} (done : scaleDomains registry index us = .ok domains) :
    ∃ entries, contributions registry index us = .ok entries ∧ domains = .ofList entries := by
  rw [scaleDomains_eq] at done
  cases listing : contributions registry index us with
  | error _ =>
    rw [listing] at done
    cases done
  | ok entries =>
    rw [listing] at done
    exact ⟨entries, rfl, (Except.ok.inj done).symm⟩

theorem drivenScales_subset {entries : List (String × String)}
    (done : contributions registry index us = .ok entries) {u : Unit} (listed : u ∈ us) :
    drivenScales u ⊆ entries := by
  obtain ⟨each, made, done⟩ := bind_eq_ok done
  cases done
  obtain ⟨own, member, made⟩ := forall₂_exists (List.Forall₂.flip (forall₂_of_mapM made)) listed
  obtain ⟨following, _, made⟩ := bind_eq_ok made
  cases made
  exact fun entry driven => List.mem_flatten.mpr ⟨_, member, List.mem_append_left _ driven⟩

theorem Staged.everySignal {forest : Forest} {demand : Demand} {outputs : List Outputs} {scene : Scene}
    (staged : Staged config spec c us forest demand outputs scene scopes) (member : scope ∈ scopes) :
    scope.signals ⊆ c.everySignal := by
  intro signal listed
  unfold Compiled.everySignal
  rw [staged.signals, staged.marks]
  cases composed : scope.context.composed with
  | false =>
    exact List.mem_append_left _ (List.mem_append_right _ (Scope.loose_subset member composed listed))
  | true =>
    have group : scope.framed = [Mark.group (scope.context.nameOf "group") scope.signals scope.marks] :=
      if_pos composed
    refine List.mem_append_right _ (List.mem_flatMap.mpr ⟨_, List.mem_flatMap.mpr ⟨scope, member,
      group ▸ List.mem_singleton.mpr rfl⟩, ?_⟩)
    exact List.mem_append_left _ listed

end Compilation

-- A brush that is bound to the scales of its view. It drives scales, and along positions it has bare
-- signals; these are the same channels unless it projects a continuous scale that is not a position, or
-- drives none because it has an instance for each view.
structure Compiled.Binds (c : Compiled) (entries : List (String × String)) (ctx : UnitContext)
    (s : Selection) : Prop where
  drives : ∀ ch, ch ∈ s.scales ↔
    s.resolve = .global ∧ s.projects ch = true ∧ ctx.isContinuous ch = true
  bare : ∀ ch, ch ∈ Brush.bareChannels s ↔ ch.isPositional = true ∧ s.projects ch = true
  shown : ∃ tuple : Signal, tuple.name = s.tuple ∧ Brush.signals ctx s =
    (Brush.bareChannels s).map (fun ch => { name := s.dataSignal ch }) ++ [tuple]
  agrees : (∀ ch, ch ∈ s.scales ↔ ch ∈ Brush.bareChannels s ∧ ctx.isContinuous ch = true) ↔
    ∀ ch, s.projects ch = true → ctx.isContinuous ch = true →
      (s.resolve = .global ↔ ch.isPositional = true)
  heard : ∀ ch ∈ Brush.bareChannels s, s.dataSignal ch ∈ names c.everySignal
  named : ∀ ch ∈ s.scales, ctx.composed = true ∨ ch.isPositional = true →
    s.dataSignal ch ∈ names c.signals
  said : ∀ ch ∈ s.scales, (ctx.scaleName ch, s.dataSignal ch) ∈ entries
  follows : ∀ ch ∈ s.scales,
    (∀ signal, (ctx.scaleName ch, signal) ∈ entries → signal = s.dataSignal ch) →
      c.scaleDomains.find? (ctx.scaleName ch) = some (s.dataSignal ch)

theorem scales_eq_bare_iff {ctx : UnitContext}
    (drives : ∀ ch, ch ∈ s.scales ↔
      s.resolve = .global ∧ s.projects ch = true ∧ ctx.isContinuous ch = true)
    (bare : ∀ ch, ch ∈ Brush.bareChannels s ↔ ch.isPositional = true ∧ s.projects ch = true) :
    (∀ ch, ch ∈ s.scales ↔ ch ∈ Brush.bareChannels s ∧ ctx.isContinuous ch = true) ↔
      ∀ ch, s.projects ch = true → ctx.isContinuous ch = true →
        (s.resolve = .global ↔ ch.isPositional = true) := by
  refine forall_congr' fun ch => ?_
  rw [drives, bare]
  tauto

namespace Scope

variable {forest : Forest} {u : Compilation.Unit} {o : Outputs} {above : List String} {ch : Channel}

theorem Made.bare (made : scope.Made .builtIn forest u o) (lifts : scope.Lifts above)
    (listed : s ∈ scope.selections) (interval : s.type = "interval") (bound : s.bindsScales = true)
    (bare : ch ∈ Brush.bareChannels s) : s.dataSignal ch ∈ names scope.signals := by
  obtain ⟨technique, found, defines⟩ := made.defines lifts listed
  rw [Registry.lookup_interval found interval] at defines
  obtain ⟨positional, projects⟩ := (Brush.mem_bareChannels bound).mp bare
  obtain ⟨field, placed⟩ := Brush.exists_position projects positional
  exact defines.technique (Brush.names_channelSignals placed (Brush.dataSignal_mem scope.context s ch))

theorem Made.lifted (made : scope.Made .builtIn forest u o) (lifts : scope.Lifts above)
    (listed : s ∈ scope.selections) (composed : scope.context.composed = true)
    (applies : Refinement.scales.applies s = true) (drives : ch ∈ s.scales) :
    s.dataSignal ch ∈ above := by
  obtain ⟨technique, _, defines⟩ := made.defines lifts listed
  obtain ⟨before, lifted⟩ := defines.lifted Refinement.scales
    (Refinement.mem_applicable.mpr ⟨by simp [Refinement.all], applies⟩)
  exact lifted (Refinement.mem_topLevelScaleSignals composed drives before)

end Scope

namespace Compilation

theorem Staged.binds {forest : Forest} {demand : Demand} {outputs : List Outputs} {scene : Scene}
    {entries : List (String × String)}
    (staged : Staged config spec c us forest demand outputs scene scopes)
    (listing : contributions .builtIn (indexOf us) us = .ok entries)
    (domains : c.scaleDomains = .ofList entries) {u : Unit} (listed : u ∈ us)
    (own : s ∈ u.selections.values) (interval : s.type = "interval") (bound : s.bindsScales = true) :
    c.Binds entries u.context s := by
  obtain ⟨scope, member, rfl⟩ := List.mem_map.mp (staged.same ▸ listed)
  obtain ⟨_, o, _, made⟩ := staged.brought.exists_pair member
  have lifts := staged.lifts scope member
  have selections := units_made staged.made scope.unit listed
  have drives : ∀ ch, ch ∈ s.scales ↔ _ := fun ch =>
    Selections.mem_scales_iff selections own interval bound
  have bare : ∀ ch, ch ∈ Brush.bareChannels s ↔ _ := fun ch => Brush.mem_bareChannels bound
  have heard : ∀ ch ∈ Brush.bareChannels s, s.dataSignal ch ∈ names scope.signals :=
    fun ch bare => made.bare lifts own interval bound bare
  have said : ∀ ch ∈ s.scales, (scope.context.scaleName ch, s.dataSignal ch) ∈ entries :=
    fun ch drives => drivenScales_subset listing listed
      (List.mem_flatMap.mpr ⟨s, own, List.mem_map_of_mem drives⟩)
  refine ⟨drives, bare, Brush.signals_bound _ bound, scales_eq_bare_iff drives bare, ?_, ?_, said, ?_⟩
  · exact fun ch bare => List.map_subset _ (staged.everySignal member) (heard ch bare)
  · intro ch driven place
    obtain ⟨global, projects, _⟩ := (drives ch).mp driven
    cases composed : scope.context.composed with
    | true =>
      have applies := Refinement.scales_applies.mpr ⟨⟨interval, global⟩, bound⟩
      exact made.lifted lifts own composed applies driven
    | false =>
      -- the signals of a view alone are at the top themselves
      have positional := place.resolve_left (Bool.eq_false_iff.mp composed)
      rw [staged.signals, Output.Signal.names_append]
      exact List.mem_append_right _ (List.map_subset _ (Scope.loose_subset member composed)
        (heard ch ((bare ch).mpr ⟨positional, projects⟩)))
  · intro ch driven alone
    rw [domains]
    exact Keyed.find?_ofList_of_mem (said ch driven) alone

end Compilation

open Compilation in
-- The scales that a brush drives are those of its bare signals exactly when all that it projects on
-- continuous scales are positions where it counts for all views, and none where it does not. What it
-- says of a scale holds as long as nothing else is said of that scale.
theorem compile_bound_scales (done : compile config .builtIn spec = .ok c) :
    ∃ us entries, units spec .builtIn config.selection = .ok us ∧
      contributions .builtIn (indexOf us) us = .ok entries ∧ c.scaleDomains = .ofList entries ∧
      ∀ u ∈ us, ∀ s ∈ u.selections.values, s.type = "interval" → s.bindsScales = true →
        c.Binds entries u.context s := by
  obtain ⟨us, forest, demand, outputs, scene, scopes, staged⟩ := compile_staged done
  have found := staged.domains
  rw [scaleDomains_eq] at found
  cases listing : contributions .builtIn (indexOf us) us with
  | error _ =>
    rw [listing] at found
    cases found
  | ok entries =>
    rw [listing] at found
    have domains : c.scaleDomains = .ofList entries := (Except.ok.inj found).symm
    exact ⟨us, entries, staged.made, listing, domains, fun u listed s own interval bound =>
      staged.binds listing domains listed own interval bound⟩

def panning (ch : Channel) (resolve : Option ResolveMode) : Spec :=
  ⟨[{ plotted "v" [] with
      encoding := Keyed.empty.put ch ⟨some "miles", .quantitative, none, false, none, none⟩
      selection := Keyed.empty.put "pan"
        { type := "interval", bind := some (.str "scales"), encodings := some [ch], resolve } }]⟩

open Compilation in
theorem compile_bound_scales_position :
    ∃ c, compile {} .builtIn (panning .x none) = .ok c ∧ "pan_miles" ∈ names c.signals ∧
      c.scaleDomains.find? "v_x" = some "pan_miles" := by
  have compiles : (compile {} .builtIn (panning .x none)).toOption.map (fun _ => true) = some true := by
    decide +kernel
  have checked : (units (panning .x none) .builtIn {}).toOption.map (fun us =>
      (decide (∃ u ∈ us, u.context.scaleName .x = "v_x" ∧ ∃ s ∈ u.selections.values,
        s.type = "interval" ∧ s.bindsScales = true ∧ Channel.x ∈ s.scales ∧
          s.dataSignal .x = "pan_miles"),
        (contributions .builtIn (indexOf us) us).toOption)) = some (true, some [("v_x", "pan_miles")]) := by
    decide +kernel
  obtain ⟨c, done, _⟩ := Flow.Forest.exists_ok compiles
  obtain ⟨us, made, checks⟩ := Flow.Forest.exists_ok checked
  obtain ⟨us', entries, made', listing, _, binds⟩ := compile_bound_scales done
  obtain rfl : us = us' := Except.ok.inj (made.symm.trans made')
  rw [listing, Prod.mk.injEq, decide_eq_true_eq] at checks
  obtain ⟨⟨u, listed, scale, s, own, interval, bound, drives, signal⟩, said⟩ := checks
  obtain rfl : entries = [("v_x", "pan_miles")] := Option.some.inj said
  have binds := binds u listed s own interval bound
  have follows := binds.follows .x drives
  rw [scale, signal] at follows
  exact ⟨c, done, signal ▸ binds.named .x drives (.inr rfl), follows (by simp)⟩

-- Along a color no signal is defined for the domain that its scale is said to follow, and where the
-- brush has an instance for each view, no scale follows the signal that is defined.
theorem compile_bound_scales_apart :
    (∃ c, compile {} .builtIn (panning .color none) = .ok c ∧
      c.scaleDomains.find? "v_color" = some "pan_miles" ∧ "pan_miles" ∉ names c.everySignal) ∧
    ∃ c, compile {} .builtIn (panning .x (some .union)) = .ok c ∧
      c.scaleDomains.find? "v_x" = none ∧ "pan_miles" ∈ names c.everySignal := by
  have color : (compile {} .builtIn (panning .color none)).toOption.map (fun c =>
      (c.scaleDomains.find? "v_color", (names c.everySignal).contains "pan_miles")) =
        some (some "pan_miles", false) := by decide +kernel
  have union : (compile {} .builtIn (panning .x (some .union))).toOption.map (fun c =>
      (c.scaleDomains.find? "v_x", (names c.everySignal).contains "pan_miles")) =
        some (none, true) := by decide +kernel
  obtain ⟨c, done, found⟩ := Flow.Forest.exists_ok color
  obtain ⟨c', done', found'⟩ := Flow.Forest.exists_ok union
  rw [Prod.mk.injEq] at found found'
  exact ⟨⟨c, done, found.1, by simpa using found.2⟩, c', done', found'.1, by simpa using found'.2⟩

end Viewflow
