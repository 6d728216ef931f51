import Viewflow.Proofs.Emission.Chain
import Viewflow.Proofs.Emission.Names
import Viewflow.Proofs.Forest.Descent

namespace Viewflow.Flow
open Output (Dataset Recipe)

variable {demand : Demand} {outside : String → Prop} {e e' e'' : Emission} {name source : String}
  {pending : Recipe} {ds : List Dataset}

namespace Emission

inductive Given (demand : Demand) : String → Prop where
  | own {name : String} : demand.isRequired name = true → Given demand name
  | again {name : String} (n : Nat) : demand.isRequired name = true → Given demand (numbered name n)
  | fork (n : Nat) : Given demand (numbered "data" n)

theorem Given.required_or_underscored (given : Given demand name) :
    demand.isRequired name = true ∨ '_' ∈ name.toList := by
  cases given with
  | own required => exact .inl required
  | again n _ => simp [numbered]
  | fork n => simp [numbered]

def Rests (outside : String → Prop) (ds : List Dataset) (r : Recipe) : Prop :=
  ∀ source, r.origin.source? = some source → source ∈ Dataset.names ds ∨ outside source

inductive Written (demand : Demand) (outside : String → Prop) : List Dataset → Prop where
  | none : Written demand outside []
  | more {ds : List Dataset} {name : String} {r : Recipe} : Written demand outside ds →
      name ∉ Dataset.names ds → Given demand name → Rests outside ds r →
      Written demand outside (ds ++ [⟨name, r⟩])

namespace Written

theorem nodup (written : Written demand outside ds) : (Dataset.names ds).Nodup := by
  induction written with
  | none => exact List.nodup_nil
  | more _ free _ _ ih =>
    rw [Dataset.names, List.map_append]
    exact ih.append (List.nodup_singleton _) (List.disjoint_singleton.mpr free)

theorem given (written : Written demand outside ds) {d : Dataset} (member : d ∈ ds) :
    Given demand d.name := by
  induction written with
  | none => cases member
  | more _ _ given _ ih =>
    rcases List.mem_append.mp member with before | last
    · exact ih before
    · rw [List.mem_singleton.mp last]
      exact given

theorem follows (written : Written demand outside ds) {earlier later : List Dataset} {d : Dataset}
    (split : ds = earlier ++ d :: later) : Rests outside earlier d.recipe := by
  induction written generalizing later with
  | none => simp at split
  | @more ds name r _ _ _ rests ih =>
    rcases List.eq_nil_or_concat later with rfl | ⟨front, last, rfl⟩
    · obtain ⟨rfl, same⟩ := List.append_inj' split rfl
      cases same
      exact rests
    · rw [List.concat_eq_append, ← List.cons_append, ← List.append_assoc] at split
      exact ih (List.append_inj' split rfl).1

end Written

theorem Rests.weaken {r : Recipe} {more : List Dataset} (rests : Rests outside ds r)
    (sub : Dataset.names ds ⊆ Dataset.names more) : Rests outside more r :=
  fun source derived => (rests source derived).imp_left fun member => sub member

theorem rests_derived (listed : source ∈ Dataset.names ds ∨ outside source) :
    Rests outside ds (.derived source) := by
  intro other derived
  cases derived
  exact listed

-- A stretch of the emission writes on behind what is there.
structure Writes (demand : Demand) (outside : String → Prop) (e e' : Emission) : Prop where
  written : Written demand outside e.datasets → Written demand outside e'.datasets
  names : Dataset.names e.datasets ⊆ Dataset.names e'.datasets

namespace Writes

theorem refl (e : Emission) : Writes demand outside e e := ⟨fun written => written, fun _ listed => listed⟩

theorem trans (one : Writes demand outside e e') (two : Writes demand outside e' e'') :
    Writes demand outside e e'' :=
  ⟨fun written => two.written (one.written written), fun _ listed => two.names (one.names listed)⟩

end Writes

theorem uniqueName_given (required : demand.isRequired name = true) (e : Emission) :
    Given demand (e.uniqueName name) := by
  unfold uniqueName
  split
  · exact .again _ required
  · exact .own required

theorem materialize_name (e : Emission) (r : Recipe) {preferred : Option String}
    (asked : ∀ name, preferred = some name → demand.isRequired name = true)
    (plain : r.alias? = none) : Given demand (e.materialize r preferred).1 := by
  unfold materialize
  rw [plain]
  cases preferred with
  | none => exact .fork _
  | some name => exact uniqueName_given (asked name rfl) e

theorem materialize_writes (rests : Rests outside e.datasets pending) {preferred : Option String}
    (asked : ∀ name, preferred = some name → demand.isRequired name = true) :
    Writes demand outside e (e.materialize pending preferred).2 ∧
      Rests outside (e.materialize pending preferred).2.datasets
        (.derived (e.materialize pending preferred).1) := by
  rcases materialize_cases e pending preferred with
    ⟨source, repeated, same⟩ | ⟨plain, name, e', done, free, grown, _⟩
  · rw [same]
    exact ⟨.refl e, rests_derived (rests source (Recipe.alias?_eq_some_iff.mp repeated).2.2)⟩
  · have given : Given demand name := by
      have given := materialize_name e pending asked plain
      rwa [done] at given
    have names : Dataset.names e'.datasets = Dataset.names e.datasets ++ [name] := by
      rw [grown, Dataset.names, List.map_append]
      rfl
    rw [done]
    refine ⟨⟨?_, ?_⟩, rests_derived (.inl ?_)⟩
    · intro written
      rw [grown]
      exact written.more free given rests
    · rw [names]
      exact List.subset_append_left ..
    · rw [names]
      exact List.mem_append_right _ (List.mem_singleton.mpr rfl)

theorem absorbStep_writes (demand : Demand) (id : NodeId) (step : Step) (underSource : Bool)
    (rests : Rests outside e.datasets pending) :
    Writes demand outside e (absorbStep demand id underSource pending e step).2 ∧
      Rests outside (absorbStep demand id underSource pending e step).2.datasets
        (absorbStep demand id underSource pending e step).1 := by
  cases step with
  | parse fields =>
    simp only [absorbStep]
    split <;> exact ⟨.refl e, rests⟩
  | output b =>
    simp only [absorbStep]
    split
    · next required =>
      have asked : ∀ name, some b.name = some name → demand.isRequired name = true := by
        intro name same
        cases same
        exact required
      obtain ⟨writes, handed⟩ := materialize_writes rests asked
      exact ⟨⟨writes.written, writes.names⟩, handed⟩
    · exact ⟨.refl e, rests⟩
  | _ => exact ⟨.refl e, rests⟩

end Emission

open Emission (Given Rests Writes Written)

mutual

-- Along the tree as it is emitted, each branch from what the branches before it have left.
theorem emitTree_writes (underSource : Bool) (pending : Recipe) (e : Emission)
    (rests : Rests outside e.datasets pending) :
    (t : Tree) → Writes demand outside e (emitTree demand underSource pending e t)
  | .node id step children => by
    unfold emitTree
    obtain ⟨writes, rests'⟩ := Emission.absorbStep_writes demand id step underSource rests
    exact writes.trans (emitChildren_writes _ _ _ rests' children)

theorem emitChildren_writes (underSource : Bool) (pending : Recipe) (e : Emission)
    (rests : Rests outside e.datasets pending) :
    (ts : List Tree) → Writes demand outside e (emitChildren demand underSource pending e ts)
  | [] => by
    unfold emitChildren
    exact .refl e
  | [child] => by
    unfold emitChildren
    exact emitTree_writes _ _ _ rests child
  | first :: second :: rest => by
    unfold emitChildren
    have asked : ∀ name, (none : Option String) = some name → demand.isRequired name = true := nofun
    obtain ⟨forked, handed⟩ := Emission.materialize_writes rests asked
    have one := emitTree_writes underSource _ _ handed first
    have two := emitTree_writes underSource _ _ (handed.weaken one.names) second
    have before := one.trans two
    exact (forked.trans before).trans
      (emitBranches_writes _ _ _ (handed.weaken before.names) rest)

theorem emitBranches_writes (underSource : Bool) (source : String) (e : Emission)
    (rests : Rests outside e.datasets (.derived source)) :
    (ts : List Tree) → Writes demand outside e (emitBranches demand underSource source e ts)
  | [] => by
    unfold emitBranches
    exact .refl e
  | child :: rest => by
    unfold emitBranches
    have one := emitTree_writes underSource _ _ rests child
    exact one.trans (emitBranches_writes _ _ _ (rests.weaken one.names) rest)

end

namespace Forest

def Brings (f : Forest) (data : DataRef) : Prop := ∃ r ∈ f.roots, f.step r = .source data

def Imports (f : Forest) (name : String) : Prop := f.Brings (.named name)

theorem rests_root {f : Forest} {r : NodeId} (root : r ∈ f.roots) (ds : List Dataset) :
    Rests f.Imports ds (rootRecipe (f.step r)) := by
  intro source derived
  cases step : f.step r with
  | source data =>
    rw [step] at derived
    cases data with
    | named name =>
      cases derived
      exact .inr ⟨r, root, step⟩
    | remote address format => cases derived
    | inline values => cases derived
  | _ =>
    rw [step] at derived
    cases derived

theorem assemble_written (f : Forest) (demand : Demand) :
    Written demand f.Imports (f.assemble demand).2 := by
  have all : Writes demand f.Imports .blank (emitTrees demand f.trees) := by
    unfold emitTrees trees
    rw [List.foldl_map]
    refine List.foldlRecOn _ _ (.refl _) ?_
    intro e before r root
    refine before.trans (emitTree_writes _ _ _ ?_ _)
    rw [step_tree]
    exact rests_root root _
  exact all.written .none

theorem assemble_given (f : Forest) (demand : Demand) :
    ∀ d ∈ (f.assemble demand).2, Given demand d.name :=
  fun _ member => (f.assemble_written demand).given member

end Forest
end Viewflow.Flow
