import Viewflow.Proofs.Selections.Lifted
import Viewflow.Proofs.Views.Scene

namespace Viewflow.Compilation
open Viewflow.Flow (Forest Outputs)
open Output (Signal)
open Output.Signal (names)

variable {registry : Registry} {forest : Forest} {scene scene' : Scene} {u : Unit} {o : Outputs}
  {pairs : List (Unit × Outputs)} {units : List Unit} {before after : List Signal}

def addAbove (registry : Registry) (before : List Signal) (u : Unit) : Except Failure (List Signal) :=
  u.selections.topLevelSignals u.context registry before

def addAllAbove (registry : Registry) (units : List Unit) (before : List Signal) :
    Except Failure (List Signal) :=
  units.foldlM (addAbove registry) before

theorem addUnit_top (done : addUnit registry forest scene u o = .ok scene') :
    addAbove registry scene.topSignals u = .ok scene'.topSignals := by
  obtain ⟨_, _, _, _, _, _, _, lifted, rfl⟩ := addUnit_parts done
  exact lifted

theorem addUnits_above (done : addUnits registry forest scene pairs = .ok scene') :
    addAllAbove registry (pairs.map Prod.fst) scene.topSignals = .ok scene'.topSignals := by
  unfold addUnits at done
  unfold addAllAbove
  induction pairs generalizing scene with
  | nil =>
    cases done
    rfl
  | cons pair pairs ih =>
    rw [List.foldlM_cons] at done
    obtain ⟨middle, first, rest⟩ := bind_eq_ok done
    rw [List.map_cons, List.foldlM_cons, addUnit_top first]
    exact ih rest

def wanted (units : List Unit) : List String :=
  units.flatMap fun u => u.selections.lifted u.context

def above (units : List Unit) (before : List Signal) : List Signal :=
  units.foldl (fun signals u => u.selections.above u.context signals) before

theorem supplies_above (units : List Unit) : Supplies (above units) (wanted units) :=
  .fold fun u _ => Selections.supplies_above u.context u.selections

theorem addAllAbove_eq_ok_iff : addAllAbove .builtIn units before = .ok after ↔
    (∀ u ∈ units, u.selections.Registered) ∧ after = above units before := by
  have each : ∀ before (u : Unit) after, addAbove .builtIn before u = .ok after ↔
      u.selections.Registered ∧ after = u.selections.above u.context before :=
    fun _ _ _ => Selections.topLevelSignals_eq_ok_iff
  exact foldlM_eq_ok_iff each

theorem unit_mem_wanted : "unit" ∈ wanted units ↔ ∃ u ∈ units, u.selections.isEmpty = false := by
  simp only [wanted, List.mem_flatMap, Selections.unit_mem_lifted]

theorem addUnits_top (done : addUnits .builtIn forest scene pairs = .ok scene')
    (distinct : (names scene.topSignals).Nodup) : (names scene'.topSignals).Nodup := by
  obtain ⟨_, same⟩ := addAllAbove_eq_ok_iff.mp (addUnits_above done)
  exact same ▸ (supplies_above _).distinct _ distinct

-- What was above the views first keeps its order, and a view whose turn has been adds nothing more.
theorem addAllAbove_settles (distinct : (names before).Nodup) :
    ((∃ after, addAllAbove .builtIn units before = .ok after) ↔
      ∀ u ∈ units, ∀ s ∈ u.selections.values, (Registry.builtIn.find? s.type).isSome = true) ∧
    ∀ after, addAllAbove .builtIn units before = .ok after →
      (names after).Nodup ∧ before.Sublist after ∧
      (∀ first rest, units = first ++ rest →
        ∃ between, addAllAbove .builtIn first before = .ok between ∧ between.Sublist after) ∧
      ("unit" ∈ names after ↔ "unit" ∈ names before ∨ ∃ u ∈ units, u.selections.isEmpty = false) ∧
      ∀ u ∈ units, addAbove .builtIn after u = .ok after := by
  have supplies := supplies_above units
  constructor
  · constructor
    · rintro ⟨after, done⟩
      exact (addAllAbove_eq_ok_iff.mp done).1
    · exact fun registered => ⟨_, addAllAbove_eq_ok_iff.mpr ⟨registered, rfl⟩⟩
  · intro after done
    obtain ⟨registered, rfl⟩ := addAllAbove_eq_ok_iff.mp done
    refine ⟨supplies.distinct before distinct, supplies.keeps before, ?_, ?_, ?_⟩
    · rintro first rest rfl
      have early := (List.forall_mem_append.mp registered).1
      refine ⟨above first before, addAllAbove_eq_ok_iff.mpr ⟨early, rfl⟩, ?_⟩
      have later := (supplies_above rest).keeps (above first before)
      rwa [above, above, ← List.foldl_append] at later
    · rw [supplies.mem_iff, unit_mem_wanted]
    · -- Whatever the view wants was put there in its turn.
      intro u listed
      have settled := (Selections.supplies_above u.context u.selections).idle (above units before)
      refine Selections.topLevelSignals_eq_ok_iff.mpr ⟨registered u listed, (settled ?_).symm⟩
      intro name lifted
      exact (supplies.mem_iff before name).mpr (.inr (List.mem_flatMap.mpr ⟨u, listed, lifted⟩))

def drivenAndAsked : List Unit :=
  let view name : UnitView :=
    { name, data := .named "cars", transform := [], encoding := .empty, selection := .empty, mark := "point" }
  [{ context := ⟨view "far", true⟩
     selections := Keyed.empty.put "pan" { name := "pan", type := "interval", bind := some .scales, scales := [.x] } },
    { context := ⟨view "near", true⟩
      selections := (Keyed.empty.put "ask"
        { name := "ask", type := "single", bind := some (.input .null), project := [.field "year"] }).put "pick"
          { name := "pick", type := "multi", resolve := .single } }]

theorem addAllAbove_settles_driven :
    ∃ after, addAllAbove .builtIn drivenAndAsked [{ name := "title" }] = .ok after ∧
      names after = ["ask_year", "unit", "title", "pan_x", "pick_unit"] ∧ (names after).Nodup ∧
      ∀ u ∈ drivenAndAsked, addAbove .builtIn after u = .ok after := by
  have counted : (addAllAbove .builtIn drivenAndAsked [{ name := "title" }]).toOption.map names =
      some ["ask_year", "unit", "title", "pan_x", "pick_unit"] := by
    decide +kernel
  have distinct : (names [{ name := "title" }]).Nodup := by decide
  obtain ⟨after, done, same⟩ := Forest.exists_ok counted
  obtain ⟨apart, _, _, _, again⟩ := (addAllAbove_settles distinct).2 after done
  exact ⟨after, done, same, apart, again⟩

end Viewflow.Compilation
