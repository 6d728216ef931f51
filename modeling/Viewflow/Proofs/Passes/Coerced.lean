import Viewflow.Proofs.Passes.Moves

namespace Viewflow

namespace Keyed

variable {κ ν : Type} [DecidableEq κ]

theorem find?_putNew (m : Keyed κ ν) (key k : κ) (value : ν) :
    (m.putNew key value).find? k = (m.find? k).or (if k = key then some value else none) := by
  unfold putNew contains
  cases found : m.find? key with
  | some old =>
    by_cases same : k = key
    · simp [same, found]
    · simp [same]
  | none =>
    by_cases same : k = key
    · simp [find?_put, same, found]
    · simp [find?_put, same]

theorem find?_putNews (m : Keyed κ ν) (entries : List (κ × ν)) (k : κ) :
    (entries.foldl (fun m entry => m.putNew entry.1 entry.2) m).find? k =
      (m.find? k).or (findEntry k entries) := by
  induction entries generalizing m with
  | nil => simp [findEntry]
  | cons entry rest ih =>
    rw [List.foldl_cons, ih, find?_putNew, Option.or_assoc, findEntry]
    congr 1
    by_cases same : k = entry.1
    · simp [same]
    · simp [same, Ne.symm same]

end Keyed

namespace Flow

def Step.coercion (s : Step) (field : String) : Option Coercion :=
  match s with
  | .parse fields => fields.find? field
  | _ => none

theorem Step.coercion_of_not_parse {s : Step} (other : s.isParse = false) (field : String) :
    s.coercion field = none := by
  cases s with
  | parse _ => cases other
  | _ => rfl

theorem coercion_merged (upper lower : Keyed String Coercion) (field : String) :
    (Step.parse (mergedCoercions upper lower)).coercion field =
      ((Step.parse upper).coercion field).or ((Step.parse lower).coercion field) :=
  Keyed.find?_putNews upper lower.entries field

namespace Forest

variable {f g : Forest} {a id p x y : NodeId} {field : String} {b : Boundary} {n : HoistCount}
  {down : NodeId → List NodeId} {roots : List NodeId}

-- The first step on the way from the root that coerces the field decides.
def coerced (f : Forest) (x : NodeId) (field : String) : Option Coercion :=
  (f.route x).findSome? (·.coercion field)

theorem coerced_of_filter (same : (g.route x).filter Step.isParse = (f.route x).filter Step.isParse) :
    g.coerced x field = f.coerced x field := by
  have parses : ∀ steps : List Step, steps.findSome? (·.coercion field) =
      (steps.filter Step.isParse).findSome? (·.coercion field) := by
    intro steps
    induction steps with
    | nil => rfl
    | cons s rest ih =>
      cases parse : s.isParse with
      | true => rw [List.filter_cons_of_pos parse, List.findSome?_cons, List.findSome?_cons, ih]
      | false =>
        rw [List.filter_cons_of_neg (by simp [parse]), ← ih, List.findSome?_cons,
          Step.coercion_of_not_parse parse]
  rw [coerced, coerced, parses, same, ← parses]

-- Nothing coerces below x, and below a coercion above x nothing does but what is above x as well.
structure Undisturbed (f : Forest) (x : NodeId) : Prop where
  within : ∀ u l, l ≠ u → Above f.parent? u l → (f.step l).isParse = true →
    u = x ∨ (f.step u).isParse = true ∧ Above f.parent? u x → Above f.parent? l x

namespace WellFormed

theorem coerced_top (valid : f.WellFormed) (top : f.parent? x = none) :
    f.coerced x field = (f.step x).coercion field := by
  simp [coerced, valid.route_top top]

theorem coerced_under (valid : f.WellFormed) (named : f.parent? x = some p) :
    f.coerced x field = (f.coerced p field).or ((f.step x).coercion field) := by
  simp [coerced, valid.route_under named, List.findSome?_append]

section Climb

variable (valid : f.WellFormed) (valid' : g.WellFormed) (named : f.parent? id = some p)
  (free : f.blocks p id = false) (low : (f.step p).isParse = false)
  (relinked : Relinked f g (exchange f.parent? id p) down roots)
include valid valid' named free low relinked

theorem coerced_exchanged (other : x ≠ p) : g.coerced x field = f.coerced x field := by
  have alone : ∀ c, f.parent? c = some p → c = id := fun c => valid.only_child named free
  exact coerced_of_filter (filter_route_skip low relinked.steps
    (valid.lineage_back valid' named alone relinked other))

theorem undisturbed_exchanged (undisturbed : f.Undisturbed x) (other : x ≠ p) : g.Undisturbed x where
  within u l distinct above parse upper := by
    have alone : ∀ c, f.parent? c = some p → c = id := fun c => valid.only_child named free
    rw [relinked.step] at parse upper
    have inside : ∀ a, (f.step a).isParse = true → a ≠ p := by
      rintro a coerces rfl
      rw [low] at coerces
      cases coerces
    have apart : u ≠ p := by
      rcases upper with same | ⟨coerces, _⟩
      · exact same ▸ other
      · exact inside u coerces
    rw [valid.above_back valid' named alone relinked (inside l parse) apart] at above
    rw [valid.above_back valid' named alone relinked other apart] at upper
    rw [valid.above_back valid' named alone relinked other (inside l parse)]
    exact undisturbed.within u l distinct above parse upper

end Climb

theorem ne_of_undisturbed (valid : f.WellFormed) (undisturbed : f.Undisturbed x)
    (named : f.parent? id = some p) (parse : (f.step id).isParse = true) : x ≠ p := by
  rintro rfl
  exact valid.no_return named
    (undisturbed.within x id (valid.ne_parent named) (.parent named) parse (.inl rfl))

section Meet

variable {upper lower : Keyed String Coercion} (valid : f.WellFormed) (valid' : g.WellFormed)
  (named : f.parent? id = some p)
  (relinked : Relinked (f.mergeParse id p) g (bypass (f.mergeParse id p).parent? id p) down roots)
include valid valid' named relinked

theorem lineage_met (other : x ≠ id) : g.lineage x = (f.lineage x).filter (· ≠ id) := by
  have merged := valid.mergeParse id p
  have parents := funext (parent_mergeParse f id p)
  rw [merged.lineage_removed valid' ((parent_mergeParse f id p id).trans named) relinked other,
    valid.lineage_of_parents merged parents]

theorem above_met (other : x ≠ id) : Above g.parent? a x ↔ a ≠ id ∧ Above f.parent? a x := by
  rw [← valid.mem_lineage_iff, ← valid'.mem_lineage_iff,
    valid.lineage_met valid' named relinked other, List.mem_filter, decide_eq_true_iff, and_comm]

omit valid valid' named in
theorem parent_met (x : NodeId) : g.parent? x = bypass f.parent? id p x := by
  rw [relinked.parent, funext (parent_mergeParse f id p)]

omit valid valid' named in
theorem step_met_of_ne (other : x ≠ p) : g.step x = f.step x := by
  rw [relinked.step]
  rcases mergeParse_cases f id p with same | ⟨_, _, _, changed⟩
  · rw [same]
  · rw [changed, step, node_setStep, if_neg fun here => other here.1]
    rfl

omit valid' in
theorem step_met (above : f.step p = .parse upper) (below : f.step id = .parse lower) :
    g.step p = .parse (mergedCoercions upper lower) := by
  have changed : f.mergeParse id p = f.setStep p (.parse (mergedCoercions upper lower)) := by
    unfold Forest.mergeParse
    rw [above, below]
  rw [relinked.step, changed, step_setStep f (valid.parent_known named), if_pos rfl]

theorem coerced_apart (apart : ¬ Above f.parent? p x) : g.coerced x field = f.coerced x field := by
  have other : x ≠ id := by
    rintro rfl
    exact apart (.parent named)
  have kept : ∀ a ∈ f.lineage x, decide (a ≠ id) = true := by
    intro a member
    apply decide_eq_true
    rintro rfl
    exact apart ((Above.parent named).trans (valid.mem_lineage_iff.mp member))
  have steps : ∀ a ∈ f.lineage x, g.step a = f.step a := by
    intro a member
    apply step_met_of_ne relinked
    rintro rfl
    exact apart (valid.mem_lineage_iff.mp member)
  unfold coerced
  rw [route, route, valid.lineage_met valid' named relinked other, List.filter_eq_self.mpr kept,
    List.map_congr_left steps]

theorem coerced_met (above : f.step p = .parse upper) (below : f.step id = .parse lower) :
    g.coerced p field = f.coerced id field := by
  have different := valid.ne_parent named
  have high : f.parent? p ≠ some id := by
    intro under
    exact valid.no_return under (.parent named)
  have place : g.parent? p = f.parent? p :=
    (parent_met relinked p).trans (bypass_of_apart different.symm high)
  have step := valid.step_met named relinked above below
  rw [valid.coerced_under named, below]
  cases upperParent : f.parent? p with
  | none =>
    rw [valid'.coerced_top (place.trans upperParent), valid.coerced_top upperParent, step, above,
      coercion_merged]
  | some q =>
    have apart : ¬ Above f.parent? p q := valid.no_return upperParent
    rw [valid'.coerced_under (place.trans upperParent), valid.coerced_under upperParent, step, above,
      coercion_merged, valid.coerced_apart valid' named relinked apart, Option.or_assoc]

theorem coerced_below (above : f.step p = .parse upper) (below : f.step id = .parse lower)
    (under : Above f.parent? id x) :
    g.coerced (if x = id then p else x) field = f.coerced x field := by
  induction under with
  | here => rw [if_pos rfl, valid.coerced_met valid' named relinked above below]
  | @under x q edge higher ih =>
    have other : x ≠ id := by
      rintro rfl
      exact valid.no_return edge higher
    have elsewhere : x ≠ p := by
      rintro rfl
      exact valid.no_return named (.under edge higher)
    have place : g.parent? x = some (if q = id then p else q) := by
      rw [parent_met relinked]
      by_cases same : q = id
      · rw [if_pos same, bypass_of_under other (same ▸ edge)]
      · rw [if_neg same, bypass_of_apart other (by simp [edge, same]), edge]
    rw [if_neg other, valid'.coerced_under place, valid.coerced_under edge, ih,
      step_met_of_ne relinked elsewhere]

theorem coerced_removed (above : f.step p = .parse upper) (below : f.step id = .parse lower)
    (other : x ≠ id) (through : Above f.parent? p x → Above f.parent? id x) :
    g.coerced x field = f.coerced x field := by
  by_cases under : Above f.parent? p x
  · have same : g.coerced (if x = id then p else x) field = f.coerced x field :=
      valid.coerced_below valid' named relinked above below (through under)
    rwa [if_neg other] at same
  · exact valid.coerced_apart valid' named relinked under

theorem undisturbed_met (undisturbed : f.Undisturbed x) (other : x ≠ id) : g.Undisturbed x where
  within u l distinct above parse upper := by
    have parses : ∀ a, (g.step a).isParse = (f.step a).isParse := by
      intro a
      rw [relinked.step, mergeParse_sameParses f id p a]
    have alone : g.parent? id = none := (parent_met relinked id).trans bypass_self
    have lower : l ≠ id := by
      rintro rfl
      exact distinct (above.eq_of_top alone).symm
    rw [parses] at parse upper
    rw [valid.above_met valid' named relinked lower] at above
    rw [valid.above_met valid' named relinked other] at upper ⊢
    exact ⟨lower, undisturbed.within u l distinct above.2 parse
      (upper.imp_right fun upper => ⟨upper.1, upper.2.2⟩)⟩

end Meet
end WellFormed

theorem Hoists.keeps_coerced (hoists : Hoists f n g) (valid : f.WellFormed)
    (output : f.step x = .output b) (undisturbed : f.Undisturbed x) :
    g.step x = .output b ∧ ∀ field, g.coerced x field = f.coerced x field := by
  induction hoists with
  | none => exact ⟨output, fun _ => rfl⟩
  | climb named attached parse low free swapped _ ih =>
    obtain ⟨valid', relinked⟩ :=
      of_ok (valid.swapWithParent named (valid.placed_of_attached named attached)) swapped
    have other := valid.ne_of_undisturbed undisturbed named parse
    obtain ⟨step, same⟩ := ih valid' ((relinked.step x).trans output)
      (valid.undisturbed_exchanged valid' named free low relinked undisturbed other)
    refine ⟨step, fun field => ?_⟩
    rw [same field, valid.coerced_exchanged valid' named free low relinked other]
  | @meet f g h id p _ _ named _ parse upper removed _ ih =>
    obtain ⟨valid', relinked⟩ :=
      of_ok ((valid.mergeParse id p).remove ((WellFormed.parent_mergeParse f id p id).trans named)) removed
    have other : x ≠ id := by
      rintro rfl
      rw [output] at parse
      cases parse
    have elsewhere := valid.ne_of_undisturbed undisturbed named parse
    have through : Above f.parent? p x → Above f.parent? id x := fun under =>
      undisturbed.within p id (valid.ne_parent named) (.parent named) parse (.inr ⟨upper, under⟩)
    obtain ⟨step, same⟩ := ih valid' ((WellFormed.step_met_of_ne relinked elsewhere).trans output)
      (valid.undisturbed_met valid' named relinked undisturbed other)
    refine ⟨step, fun field => ?_⟩
    cases above : f.step p with
    | parse =>
      cases below : f.step id with
      | parse => rw [same field, valid.coerced_removed valid' named relinked above below other through]
      | _ => rw [below] at parse; cases parse
    | _ => rw [above] at upper; cases upper

theorem moveParseUp_keeps_coerced (valid : f.WellFormed) (output : f.step x = .output b)
    (undisturbed : f.Undisturbed x) :
    ∃ g n, f.moveParseUp = .ok (g, n) ∧ g.step x = .output b ∧
      ∀ field, g.coerced x field = f.coerced x field := by
  obtain ⟨g, n, done, _⟩ := valid.moveParseUp .empty
  obtain ⟨step, same⟩ := (valid.hoists_moveParseUp done).keeps_coerced valid output undisturbed
  exact ⟨g, n, done, step, same⟩

def coercedTwice : Forest :=
  let (f, source) := Forest.empty.addRoot "source" (.source (.named "cars"))
  let (f, upper) := f.addUnder source "parse" (.parse (Keyed.empty.put "miles" .number))
  let (f, filter) := f.addUnder upper "filter" (.filter "datum.miles" .empty)
  let (f, lower) := f.addUnder filter "parse" (.parse (Keyed.empty.put "year" .date))
  (f.addUnder lower "main" (.output (.fresh "main" .main))).1

theorem wellFormed_coercedTwice : coercedTwice.WellFormed := by
  have root := WellFormed.empty.addRoot "source" (.source (.named "cars"))
  have upper := (root.addUnder (p := ⟨0⟩) (by decide) "parse"
    (.parse (Keyed.empty.put "miles" .number))).1
  have filter := (upper.addUnder (p := ⟨1⟩) (by decide) "filter" (.filter "datum.miles" .empty)).1
  have lower := (filter.addUnder (p := ⟨2⟩) (by decide) "parse"
    (.parse (Keyed.empty.put "year" .date))).1
  exact (lower.addUnder (p := ⟨3⟩) (by decide) "main" (.output (.fresh "main" .main))).1

theorem undisturbed_coercedTwice : coercedTwice.Undisturbed ⟨4⟩ where
  within u l _ _ parse _ := by
    have way : ∀ i < 5, (coercedTwice.step ⟨i⟩).isParse = true →
        (⟨i⟩ : NodeId) ∈ coercedTwice.lineage ⟨4⟩ := by decide
    by_cases known : l.index < 5
    · exact wellFormed_coercedTwice.mem_lineage_iff.mp (way l.index known parse)
    · unfold step at parse
      rw [node_unknown known] at parse
      cases parse

theorem moveParseUp_keeps_coerced_twice :
    ∃ g, coercedTwice.moveParseUp = .ok (g, ⟨1, 1⟩) ∧ g.children ⟨1⟩ = [⟨2⟩] ∧
      g.coerced ⟨4⟩ "miles" = some .number ∧ g.coerced ⟨4⟩ "year" = some .date := by
  obtain ⟨g, n, done, _, same⟩ := moveParseUp_keeps_coerced wellFormed_coercedTwice
    (x := ⟨4⟩) (b := .fresh "main" .main) rfl undisturbed_coercedTwice
  have counted : coercedTwice.moveParseUp.toOption.map (fun r => (r.2, r.1.children ⟨1⟩)) =
      some (⟨1, 1⟩, [⟨2⟩]) := by decide +kernel
  rw [done] at counted
  obtain ⟨rfl, alone⟩ := Prod.ext_iff.mp (Option.some.inj counted)
  refine ⟨g, done, alone, ?_, ?_⟩
  · rw [same]
    decide +kernel
  · rw [same]
    decide +kernel

def coercedApart : Forest :=
  let (f, source) := Forest.empty.addRoot "source" (.source (.named "cars"))
  let (f, raw) := f.addUnder source "raw" (.output (.fresh "raw" .raw))
  let (f, parse) := f.addUnder raw "parse" (.parse (Keyed.empty.put "miles" .number))
  let (f, _) := f.addUnder parse "main" (.output (.fresh "main" .main))
  let (f, source) := f.addRoot "source" (.source (.named "vans"))
  let (f, upper) := f.addUnder source "parse" (.parse (Keyed.empty.put "miles" .number))
  let (f, _) := f.addUnder upper "left" (.output (.fresh "left" .main))
  let (f, lower) := f.addUnder upper "parse" (.parse (Keyed.empty.put "year" .date))
  (f.addUnder lower "right" (.output (.fresh "right" .main))).1

theorem wellFormed_coercedApart : coercedApart.WellFormed := by
  have source := WellFormed.empty.addRoot "source" (.source (.named "cars"))
  have raw := (source.addUnder (p := ⟨0⟩) (by decide) "raw" (.output (.fresh "raw" .raw))).1
  have parse := (raw.addUnder (p := ⟨1⟩) (by decide) "parse"
    (.parse (Keyed.empty.put "miles" .number))).1
  have main := (parse.addUnder (p := ⟨2⟩) (by decide) "main" (.output (.fresh "main" .main))).1
  have other := main.addRoot "source" (.source (.named "vans"))
  have upper := (other.addUnder (p := ⟨4⟩) (by decide) "parse"
    (.parse (Keyed.empty.put "miles" .number))).1
  have left := (upper.addUnder (p := ⟨5⟩) (by decide) "left" (.output (.fresh "left" .main))).1
  have lower := (left.addUnder (p := ⟨5⟩) (by decide) "parse"
    (.parse (Keyed.empty.put "year" .date))).1
  exact (lower.addUnder (p := ⟨7⟩) (by decide) "right" (.output (.fresh "right" .main))).1

-- What is read above the one coercion, and beside the other, is coerced then.
theorem moveParseUp_coerces_apart :
    ∃ (demand : Demand) (g : Forest), coercedApart.WellFormed ∧
      coercedApart.moveParseUp = .ok (g, ⟨1, 1⟩) ∧
      demand.isRequired "raw" = true ∧ demand.isRequired "left" = true ∧
      coercedApart.step ⟨1⟩ = .output (.fresh "raw" .raw) ∧ coercedApart.isAttached ⟨1⟩ = true ∧
      coercedApart.coerced ⟨1⟩ "miles" = none ∧ g.coerced ⟨1⟩ "miles" = some .number ∧
      coercedApart.step ⟨6⟩ = .output (.fresh "left" .main) ∧ coercedApart.isAttached ⟨6⟩ = true ∧
      coercedApart.coerced ⟨6⟩ "year" = none ∧ g.coerced ⟨6⟩ "year" = some .date := by
  have counted : coercedApart.moveParseUp.toOption.map (fun r =>
      (r.2, r.1.coerced ⟨1⟩ "miles", r.1.coerced ⟨6⟩ "year")) =
        some (⟨1, 1⟩, some .number, some .date) := by decide +kernel
  obtain ⟨⟨g, n⟩, done, same⟩ := exists_ok counted
  simp only [Prod.mk.injEq] at same
  obtain ⟨rfl, raw, left⟩ := same
  exact ⟨(Demand.empty.request "raw").request "left", g, wellFormed_coercedApart, done, by decide,
    by decide, rfl, by decide, by decide +kernel, raw, rfl, by decide, by decide +kernel, left⟩

end Forest
end Flow
end Viewflow
