import Viewflow.Proofs.Expressions.Meaning
import Viewflow.Proofs.Lowering.Pipelines
import Viewflow.Proofs.Views.Declared
import Viewflow.Selection.Brush

namespace Viewflow

namespace Operand
variable {α : Type} {f : α → Bool}

mutual

def holds (f : α → Bool) : Operand α → Bool
  | .leaf a => f a
  | .not o => !o.holds f
  | .allOf os => eachHolds f os
  | .anyOf os => someHolds f os

def eachHolds (f : α → Bool) : List (Operand α) → Bool
  | [] => true
  | o :: rest => o.holds f && eachHolds f rest

def someHolds (f : α → Bool) : List (Operand α) → Bool
  | [] => false
  | o :: rest => o.holds f || someHolds f rest

end

theorem eachHolds_eq (os : List (Operand α)) : eachHolds f os = os.all (·.holds f) := by
  induction os with
  | nil => rfl
  | cons o os ih => rw [eachHolds, ih, List.all_cons]

theorem someHolds_eq (os : List (Operand α)) : someHolds f os = os.any (·.holds f) := by
  induction os with
  | nil => rfl
  | cons o os ih => rw [someHolds, ih, List.any_cons]

end Operand

namespace Resolution
open Expression (Atom)

def scopedAtom (template : String) (first : Selection) (i : Instance) : Atom :=
  .tests template first.store (some i.view)

def currentAtom (first : Selection) (i : Instance) : Atom := .current first.unit i.view

def mergedMeaning (template : String) (first : Selection) (instances : List Instance)
    (truth : Atom → Bool) : Bool :=
  match first.resolve with
  | .global => truth (.tests template first.store none)
  | .union => instances.any fun i => truth (scopedAtom template first i)
  | .intersect => instances.all fun i => truth (scopedAtom template first i)
  | .single =>
    instances.any fun i => truth (currentAtom first i) && truth (scopedAtom template first i)

def guardedMeaning (template : String) (first : Selection) (instances : List Instance)
    (truth : Atom → Bool) : Bool :=
  match first.empty with
  | .all => mergedMeaning template first instances truth
  | .none => truth (.filled first.store) && mergedMeaning template first instances truth

def meaning (registry : Registry) (index : Index) (truth : Atom → Bool) (name : String) : Bool :=
  match index.instances (Text.identifier name) with
  | [] => false
  | first :: rest =>
    match registry.find? first.selection.type with
    | none => false
    | some technique =>
      guardedMeaning technique.predicate first.selection (first :: rest) truth

end Resolution

namespace Resolution
open Expression
open Operand (parenthesized combined)

def Spoken (registry : Registry) (s : String) : Prop :=
  IsName s ∨ ∃ type technique, registry.find? type = some technique ∧ s = technique.predicate

variable {registry : Registry} {index : Index} {first : Selection} {template store unit : String}
  {instances : List Instance}

-- Of two instances in one view, both tests are the same; of two in different views, at most one is
-- current.
theorem any_current {truth : Atom → Bool} (exclusive : Exclusive truth) (i : Instance) :
    (if truth (.current unit i.view) = true then truth (.tests template store (some i.view))
      else instances.any fun j => truth (.current unit j.view) &&
        truth (.tests template store (some j.view))) =
      ((i :: instances).any fun j => truth (.current unit j.view) &&
        truth (.tests template store (some j.view))) := by
  rw [List.any_cons]
  by_cases current : truth (.current unit i.view) = true
  · have others : (instances.any fun j => truth (.current unit j.view) &&
        truth (.tests template store (some j.view))) = true →
        truth (.tests template store (some i.view)) = true := by
      intro some
      obtain ⟨j, _, both⟩ := List.any_eq_true.mp some
      obtain ⟨other, tested⟩ := Bool.and_eq_true_iff.mp both
      rwa [exclusive unit i.view j.view current other]
    rw [if_pos current, current, Bool.true_and]
    cases tested : truth (.tests template store (some i.view)) with
    | true => rfl
    | false =>
      rw [tested] at others
      exact (Bool.eq_false_iff.mpr fun some => nomatch others some).symm
  · rw [if_neg current, Bool.eq_false_iff.mpr current, Bool.false_and, Bool.false_or]

theorem means_latest (spoken : Spoken registry template) (named : Spoken registry unit)
    (store : String) (instances : List Instance) :
    Means (Spoken registry) .choice (latestTest template (Text.quote store) unit instances)
      fun truth => instances.any fun i => truth (.current unit i.view) &&
        truth (.tests template store (some i.view)) := by
  induction instances with
  | nil =>
    have falsity : Means (Spoken registry) .single "false" fun _ => false :=
      .name (.inl (isName_iff.mpr (by decide))) fun _ => rfl
    exact falsity.whole
  | cons i rest ih =>
    have current := means_current named i.view
    have tested := means_scoped spoken (.inl (isName_iff.mpr (by decide))) store i.view
    have chain := current.inBoth.inEither.choose tested.whole.parenthesized.whole ih
    have text : unit ++ " === " ++ Text.quote i.view ++ " ? " ++
        (parenthesized (scopedTest template (Text.quote store) i.view) ++ " : " ++
          latestTest template (Text.quote store) unit rest) =
        latestTest template (Text.quote store) unit (i :: rest) := by
      apply String.toList_inj.mp
      simp [latestTest, parenthesized]
    rw [text] at chain
    exact chain.agrees fun truth exclusive => any_current exclusive i

theorem means_combined {separator : String} {join : List ((Atom → Bool) → Bool) → (Atom → Bool) → Bool}
    (joins : Joins (Spoken registry) separator join) (spoken : Spoken registry template)
    (store : String) (filled : instances ≠ []) :
    Means (Spoken registry) .choice (combinedTests template (Text.quote store) separator instances)
      (join (instances.map fun i truth => truth (.tests template store (some i.view)))) := by
  have tested := fun i : Instance =>
    means_scoped spoken (.inl (isName_iff.mpr (by decide))) store i.view
  match instances with
  | [] => exact (filled rfl).elim
  | [i] => simpa [combinedTests, joins.one] using (tested i).whole
  | i :: j :: rest =>
    refine joins.each _ _ ?_ (by simp)
    exact List.forall₂_map_left_iff.mpr (List.forall₂_map_right_iff.mpr
      (List.forall₂_same.mpr fun i _ => (tested i).whole.parenthesized))

theorem spoken_unit (safe : Text.identifier first.name = first.name) :
    Spoken registry first.unit := by
  refine .inl (isName_iff.mpr ⟨?_, Text.identifier_append safe ?_⟩)
  · intro none
    have length := congrArg (·.toList.length) none
    simp [Selection.unit] at length
  · exact Text.identifier_eq_iff.mp (by decide)

theorem means_merged (spoken : Spoken registry template)
    (safe : Text.identifier first.name = first.name) (filled : instances ≠ []) :
    Means (Spoken registry) .choice (mergedTest template first instances)
      (mergedMeaning template first instances) := by
  unfold mergedTest mergedMeaning
  cases first.resolve with
  | global => exact (means_unscoped spoken (.inl (isName_iff.mpr (by decide))) first.store).whole
  | union =>
    exact (means_combined joins_any spoken first.store filled).agrees fun truth _ => by
      simp [List.any_map, Function.comp_def, scopedAtom]
  | intersect =>
    exact (means_combined joins_all spoken first.store filled).agrees fun truth _ => by
      simp [List.all_map, Function.comp_def, scopedAtom]
  | single => exact means_latest spoken (spoken_unit safe) first.store instances

theorem means_guarded (spoken : Spoken registry template)
    (safe : Text.identifier first.name = first.name) (filled : instances ≠ []) :
    Means (Spoken registry) .choice (guardedTest first (mergedTest template first instances))
      (guardedMeaning template first instances) := by
  have merged := means_merged spoken safe filled
  unfold guardedTest guardedMeaning
  cases first.empty with
  | all => exact merged
  | none =>
    have filled : Means (Spoken registry) .single _ _ :=
      means_filled (.inl (isName_iff.mpr (by decide))) (.inl (isName_iff.mpr (by decide))) first.store
    have guarded := merged.parenthesized.inNegation.inEqual.inBoth
    have both := (filled.inNegation.inEqual.both guarded).inEither.inChoice
    have text : "length(data(" ++ Text.quote first.store ++ "))" ++ " && " ++
        parenthesized (mergedTest template first instances) =
        "length(data(" ++ first.quotedStore ++ ")) && (" ++ mergedTest template first instances ++
          ")" := by
      apply String.toList_inj.mp
      simp [parenthesized, Selection.quotedStore]
    rw [text] at both
    exact both

theorem means_selectionTest
    (safe : ∀ i, index.Holds i → Text.identifier i.selection.name = i.selection.name)
    {name text : String} (done : selectionTest registry index name = .ok text) :
    Means (Spoken registry) .choice text fun truth => meaning registry index truth name := by
  unfold selectionTest at done
  unfold meaning
  cases here : index.instances (Text.identifier name) with
  | nil =>
    rw [here] at done
    cases done
  | cons first rest =>
    rw [here] at done
    obtain ⟨technique, known, done⟩ := bind_eq_ok done
    cases done
    have found : registry.find? first.selection.type = some technique := by
      unfold Registry.lookup at known
      split at known
      · next found =>
        cases known
        exact found
      · cases known
    have held : index.Holds first := by
      cases listed : index.find? (Text.identifier name) with
      | none => simp [Index.instances, listed] at here
      | some found =>
        simp only [Index.instances, listed, Option.getD_some] at here
        exact Index.holds_iff.mpr ⟨_, found, listed, here ▸ List.mem_cons_self ..⟩
    simp only [found]
    exact means_guarded (.inr ⟨_, technique, found, rfl⟩) (safe first held) (by simp)

end Resolution

namespace Operand
open Expression

variable {α : Type} {expand : α → Except Failure String} {reading : α → (Atom → Bool) → Bool}
  {known : String → Prop}

theorem means_combined {separator nothing : String}
    {join : List ((Atom → Bool) → Bool) → (Atom → Bool) → Bool} (joins : Joins known separator join)
    (none : Means known .single nothing (join [])) {parts : List String}
    {meanings : List ((Atom → Bool) → Bool)}
    (each : List.Forall₂ (Means known .choice) parts meanings) :
    Means known .choice (combined separator nothing parts) (join meanings) := by
  unfold combined
  cases each with
  | nil => exact none.whole
  | cons first rest =>
    refine joins.each _ _ ?_ (by simp)
    exact List.forall₂_map_left_iff.mpr
      (.cons first.parenthesized (rest.imp fun _ _ means => means.parenthesized))

mutual

theorem means_render
    (each : ∀ a text, expand a = .ok text → Means known .choice text (reading a))
    (truth : known "true") (falsity : known "false") (o : Operand α) {text : String}
    (done : o.renderM expand = .ok text) :
    Means known .choice text fun truth => o.holds fun a => reading a truth := by
  cases o with
  | leaf a => exact each a text done
  | not o =>
    obtain ⟨part, inner, done⟩ := bind_eq_ok done
    cases done
    have means := means_render each truth falsity o inner
    exact means.parenthesized.inNegation.negated.inEqual.inBoth.inEither.inChoice
  | allOf os =>
    obtain ⟨parts, inner, done⟩ := bind_eq_ok done
    cases done
    have means := means_renderEach each truth falsity os inner
    refine (means_combined joins_all (.name truth fun _ => rfl) means).agrees fun truth _ => ?_
    simp [holds, eachHolds_eq, List.all_map, Function.comp_def]
  | anyOf os =>
    obtain ⟨parts, inner, done⟩ := bind_eq_ok done
    cases done
    have means := means_renderEach each truth falsity os inner
    refine (means_combined joins_any (.name falsity fun _ => rfl) means).agrees fun truth _ => ?_
    simp [holds, someHolds_eq, List.any_map, Function.comp_def]

theorem means_renderEach
    (each : ∀ a text, expand a = .ok text → Means known .choice text (reading a))
    (truth : known "true") (falsity : known "false") (os : List (Operand α)) {parts : List String}
    (done : renderEachM expand os = .ok parts) :
    List.Forall₂ (Means known .choice) parts
      (os.map fun o truth => o.holds fun a => reading a truth) := by
  cases os with
  | nil =>
    cases done
    exact .nil
  | cons o os =>
    obtain ⟨part, first, done⟩ := bind_eq_ok done
    obtain ⟨parts, rest, done⟩ := bind_eq_ok done
    cases done
    exact .cons (means_render each truth falsity o first) (means_renderEach each truth falsity os rest)

end

end Operand

namespace Resolution
open Expression

variable {registry : Registry} {index : Index}

-- A test is read as a tree that says what the operand says of its selections, and it is read so from
-- its very characters wherever techniques test items under proper names.
theorem test_means (safe : ∀ i, index.Holds i → Text.identifier i.selection.name = i.selection.name)
    {operand : Operand String} {text : String} (done : test registry index operand = .ok text) :
    ∃ tokens e, spelled tokens = text.toList ∧ (∀ s, .name s ∈ tokens → Spoken registry s) ∧
      ofTokens? tokens = some e ∧
      (∀ truth, Exclusive truth →
        e.value? truth = some (operand.holds (meaning registry index truth))) ∧
      ((∀ type technique, registry.find? type = some technique → IsName technique.predicate) →
        ofText? text = some e) := by
  obtain ⟨tokens, e, spells, parses, value⟩ := Operand.means_render
    (fun _ _ done => means_selectionTest safe done) (.inl (isName_iff.mpr (by decide)))
    (.inl (isName_iff.mpr (by decide))) operand done
  have read := ofTokens?_parsed parses
  refine ⟨tokens, e, spells.read, spells.names, read, value, ?_⟩
  intro proper
  have names : ∀ s, .name s ∈ tokens → IsName s := by
    intro s member
    rcases spells.names s member with name | ⟨type, technique, found, rfl⟩
    · exact name
    · exact proper type technique found
  have back := tokens?_spelled spells.spaced names
  rw [spells.read, String.ofList_toList] at back
  rw [ofText?, back, Option.bind_some, read]

theorem builtIn_proper {type : String} {technique : Technique}
    (found : Registry.builtIn.find? type = some technique) : IsName technique.predicate := by
  have listed : (type, technique) ∈
      [("single", Point.single), ("multi", Point.multi), ("interval", Brush.interval)] :=
    (Keyed.find?_eq_some_iff _).mp found
  simp only [List.mem_cons, Prod.mk.injEq, List.not_mem_nil, or_false] at listed
  rcases listed with ⟨_, rfl⟩ | ⟨_, rfl⟩ | ⟨_, rfl⟩ <;> exact isName_iff.mpr (by decide)

def latePick : Selection :=
  { name := "my_pick", type := "single", resolve := .single, empty := .none }

def twoPicks : Index := Index.insert (Index.insert .empty "left" latePick) "right" latePick

def twoPicksTest : String :=
  "!(length(data(\"my_pick_store\")) && (" ++
    "my_pick_unit === \"left\" ? (vlSingle(\"my_pick_store\", datum, \"left\")) : " ++
    "my_pick_unit === \"right\" ? (vlSingle(\"my_pick_store\", datum, \"right\")) : false))"

theorem test_means_two_picks :
    test .builtIn twoPicks (.not (.leaf "my pick")) = .ok twoPicksTest ∧
    ∃ e, ofText? twoPicksTest = some e ∧
      ∀ truth, Exclusive truth → e.value? truth = some (!(truth (.filled "my_pick_store") &&
        (truth (.current "my_pick_unit" "left") &&
            truth (.tests "vlSingle" "my_pick_store" (some "left")) ||
          (truth (.current "my_pick_unit" "right") &&
            truth (.tests "vlSingle" "my_pick_store" (some "right")) || false)))) := by
  have done : test .builtIn twoPicks (.not (.leaf "my pick")) = .ok twoPicksTest := by
    decide +kernel
  have safe : ∀ i, twoPicks.Holds i → Text.identifier i.selection.name = i.selection.name := by
    intro i held
    rcases Index.holds_insert.mp held with held | rfl
    · rcases Index.holds_insert.mp held with held | rfl
      · cases held
      · decide
    · decide
  obtain ⟨_, e, _, _, _, value, read⟩ := test_means safe done
  exact ⟨done, e, read fun _ _ => builtIn_proper, value⟩

end Resolution
end Viewflow
