import Viewflow.Compile
import Viewflow.Proofs.Emission.Chain
import Viewflow.Proofs.Lowering.Requests

namespace Viewflow
open Viewflow.Flow (Forest Outputs)
open Output (Dataset Mark Signal)

structure Output.Dataset.Extends (before after : List Dataset) : Prop where
  more : ∃ more, after = before ++ more
  distinct : (names before).Nodup → (names after).Nodup

namespace Output.Dataset.Extends

variable {ds ds' ds'' : List Dataset}

theorem refl (ds : List Dataset) : Extends ds ds :=
  ⟨⟨[], (List.append_nil ds).symm⟩, fun distinct => distinct⟩

theorem trans (one : Extends ds ds') (two : Extends ds' ds'') : Extends ds ds'' := by
  obtain ⟨more, rfl⟩ := one.more
  obtain ⟨more', rfl⟩ := two.more
  exact ⟨⟨more ++ more', List.append_assoc ..⟩, fun distinct => two.distinct (one.distinct distinct)⟩

theorem mem {d : Dataset} (extended : Extends ds ds') (member : d ∈ ds) : d ∈ ds' := by
  obtain ⟨more, rfl⟩ := extended.more
  exact List.mem_append_left _ member

end Output.Dataset.Extends

theorem Selections.addStore_extends (ds : List Dataset) (s : Selection) :
    Dataset.Extends ds (addStore ds s) := by
  unfold addStore
  split
  · exact .refl ds
  · next fresh =>
    refine ⟨⟨_, rfl⟩, ?_⟩
    intro distinct
    unfold Dataset.names
    rw [List.map_append]
    exact Distinct.append_one_nodup _ _ distinct fun listed => fresh (List.contains_iff_mem.mpr listed)

theorem Selections.stores_extends (selections : Selections) (ds : List Dataset) :
    Dataset.Extends ds (selections.stores ds) := by
  unfold stores
  induction selections.values generalizing ds with
  | nil => exact .refl ds
  | cons s rest ih => exact (addStore_extends ds s).trans (ih _)

namespace Compilation

variable {registry : Registry} {forest : Forest} {scene scene' : Scene} {u : Unit} {o : Outputs}
  {pairs : List (Unit × Outputs)}

def Unit.framed (u : Unit) (signals : List Signal) (marks : List Mark) : List Mark :=
  if u.context.composed then [Mark.group (u.context.nameOf "group") signals marks] else marks

def Shows (registry : Registry) (forest : Forest) (u : Unit) (o : Outputs) (block : List Mark) :
    Prop :=
  ∃ main signals marks, forest.step o.main = .output main ∧
    u.selections.marks u.context registry
      [Mark.drawn (u.context.nameOf "marks") u.context.view.mark main.source] = .ok marks ∧
    block = u.framed signals marks

theorem addUnit_parts (done : addUnit registry forest scene u o = .ok scene') :
    ∃ main marks signals top, forest.step o.main = .output main ∧
      u.selections.marks u.context registry
        [Mark.drawn (u.context.nameOf "marks") u.context.view.mark main.source] = .ok marks ∧
      u.selections.signals u.context registry [] = .ok signals ∧
      u.selections.topLevelSignals u.context registry scene.topSignals = .ok top ∧
      scene' = {
        data := u.selections.stores scene.data
        topSignals := top
        unitSignals := scene.unitSignals ++ if u.context.composed then [] else signals
        marks := scene.marks ++ u.framed signals marks } := by
  obtain ⟨main, found, done⟩ := bind_eq_ok done
  obtain ⟨marks, made, done⟩ := bind_eq_ok done
  obtain ⟨signals, heard, done⟩ := bind_eq_ok done
  obtain ⟨top, lifted, done⟩ := bind_eq_ok done
  refine ⟨main, marks, signals, top, Forest.boundary_spec found, made, heard, lifted, ?_⟩
  cases composed : u.context.composed with
  | true =>
    simp only [composed, if_true] at done
    cases done
    simp [Unit.framed, composed]
  | false =>
    simp only [composed, Bool.false_eq_true, if_false] at done
    cases done
    simp [Unit.framed, composed]

theorem addUnit_spec (done : addUnit registry forest scene u o = .ok scene') :
    ∃ block, scene'.marks = scene.marks ++ block ∧ Shows registry forest u o block ∧
      Dataset.Extends scene.data scene'.data := by
  obtain ⟨main, marks, signals, top, output, made, _, _, rfl⟩ := addUnit_parts done
  exact ⟨_, rfl, ⟨main, signals, marks, output, made, rfl⟩, u.selections.stores_extends scene.data⟩

theorem addUnits_spec (done : addUnits registry forest scene pairs = .ok scene') :
    ∃ blocks : List (List Mark), scene'.marks = scene.marks ++ blocks.flatten ∧
      List.Forall₂ (fun pair block => Shows registry forest pair.1 pair.2 block) pairs blocks ∧
      Dataset.Extends scene.data scene'.data := by
  unfold addUnits at done
  induction pairs generalizing scene with
  | nil =>
    cases done
    exact ⟨[], (List.append_nil _).symm, .nil, .refl _⟩
  | cons pair pairs ih =>
    rw [List.foldlM_cons] at done
    obtain ⟨middle, first, rest⟩ := bind_eq_ok done
    obtain ⟨block, grown, shows, stores⟩ := addUnit_spec first
    obtain ⟨blocks, grown', others, stores'⟩ := ih rest
    refine ⟨block :: blocks, ?_, .cons shows others, stores.trans stores'⟩
    rw [grown', grown, List.flatten_cons, List.append_assoc]

end Compilation
end Viewflow
