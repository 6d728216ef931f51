import Viewflow.Proofs.Emission.Trees
import Viewflow.Proofs.Forest.Growth

namespace Viewflow.Flow.Forest
open Output (Chain Dataset Reads Recipe flattened)

variable {f g : Forest} {demand : Demand} {id r : NodeId} {datasets : List Dataset}
  {owner : String → List NodeId} {name : String} {bound : List (NodeId × String)} {b : Boundary}

def External (f : Forest) (datasets : List Dataset) : Prop :=
  ∀ r ∈ f.roots, ∀ name, f.step r = .source (.named name) → name ∉ Dataset.names datasets

theorem stands_rootRecipe (external : f.External datasets) (root : r ∈ f.roots) :
    Stands datasets owner (rootRecipe (f.step r)) [] (rootRecipe (f.step r)) [] := by
  cases step : f.step r with
  | source data =>
    cases data with
    | named name => exact .of_reads (.outside (external r root name step))
    | _ => exact .inl ⟨rfl, rfl, rfl⟩
  | _ => exact .inl ⟨rfl, rfl, rfl⟩

theorem ready_root (top : f.parent? r = none) : Ready f r false (rootRecipe (f.step r)) :=
  ⟨fun _ => (loads_top top).symm, fun _ => rfl⟩

namespace WellFormed

theorem visitsRoots (valid : f.WellFormed) (tops : f.SourcesOnTop) (demand : Demand)
    (roots : List NodeId) (within : ∀ r ∈ roots, r ∈ f.roots) (e : Emission) :
    Visits f demand (fun datasets _ => f.External datasets) e
      ((roots.map f.tree).foldl (fun e t => emitTree demand false (rootRecipe t.step) e t) e) []
      (roots.flatMap fun r => (f.tree r).ids) := by
  induction roots generalizing e with
  | nil => exact .refl e []
  | cons r roots ih =>
    have root := within r (List.mem_cons_self ..)
    have top := valid.rootTop r root
    have visit := visitsTree valid tops demand r (valid.attached_of_root root) false
      (rootRecipe (f.step r)) [] e (ready_root top) (.nil (transforms_rootRecipe _))
    unfold before at visit
    unfold bearersBefore at visit
    rw [top] at visit
    rw [List.map_cons, List.foldl_cons, List.flatMap_cons]
    rw [step_tree]
    apply (visit.weaken fun datasets owner external => stands_rootRecipe external root).seq
    exact ih (fun r member => within r (List.mem_cons_of_mem _ member)) _

end WellFormed

def ownerIn (log : List Piece) (name : String) : List NodeId :=
  ((log.find? fun piece => piece.dataset.name == name).map (·.nodes)).getD []

theorem filed_ownerIn {log : List Piece}
    (distinct : (Dataset.names (log.map (·.dataset))).Nodup) :
    Filed (log.map (·.dataset)) (ownerIn log) log := by
  intro piece member
  refine ⟨List.mem_map.mpr ⟨piece, member, rfl⟩, ?_⟩
  induction log with
  | nil => cases member
  | cons first rest ih =>
    rw [List.map_cons, Dataset.names, List.map_cons, List.nodup_cons] at distinct
    rcases List.mem_cons.mp member with rfl | later
    · simp [ownerIn]
    · have other : first.dataset.name ≠ piece.dataset.name := by
        intro same
        refine distinct.1 (List.mem_map.mpr ⟨piece.dataset, ?_, same.symm⟩)
        exact List.mem_map.mpr ⟨piece, later, rfl⟩
      unfold ownerIn
      rw [List.find?_cons_of_neg (by simpa using other)]
      exact ih distinct.2 later

def rebound (source : String) : Step → Step
  | .output b => .output { b with source }
  | s => s

theorem bindSource_cases (f : Forest) (bound : NodeId × String) :
    f.bindSource bound = f ∨ ∃ b, f.step bound.1 = .output b ∧
      f.bindSource bound = f.setStep bound.1 (.output { b with source := bound.2 }) := by
  unfold bindSource
  split
  · next b output => exact .inr ⟨b, output, rfl⟩
  · exact .inl rfl

theorem known_of_output (output : f.step id = .output b) : id.index < f.size := by
  apply Decidable.byContradiction
  intro unknown
  unfold step at output
  rw [node_unknown unknown] at output
  cases output

theorem step_bindSource (f : Forest) (id : NodeId) (source : String) (x : NodeId) :
    (f.bindSource (id, source)).step x = if x = id then rebound source (f.step id) else f.step x := by
  cases step : f.step id with
  | output b =>
    simp only [bindSource, step]
    exact step_setStep f (known_of_output step) _ x
  | _ =>
    simp only [bindSource, step, rebound]
    split
    · next same => rw [same, step]
    · rfl

structure OnlyBound (f g : Forest) : Prop where
  size : g.size = f.size
  roots : g.roots = f.roots
  name : ∀ x, (g.node x).name = (f.node x).name
  parent : ∀ x, g.parent? x = f.parent? x
  children : ∀ x, g.children x = f.children x

theorem onlyBound_bindSource (f : Forest) (bound : NodeId × String) :
    OnlyBound f (f.bindSource bound) := by
  rcases bindSource_cases f bound with same | ⟨b, output, changed⟩
  · rw [same]
    exact ⟨rfl, rfl, fun _ => rfl, fun _ => rfl, fun _ => rfl⟩
  · rw [changed]
    refine ⟨size_modify .., rfl, ?_, parent_setStep f _ _, children_setStep f _ _⟩
    intro x
    rw [node_setStep]
    split
    · next here => rw [here.1]
    · rfl

theorem onlyBound_bindAll (f : Forest) (bound : List (NodeId × String)) :
    OnlyBound f (bound.foldl bindSource f) := by
  induction bound generalizing f with
  | nil => exact ⟨rfl, rfl, fun _ => rfl, fun _ => rfl, fun _ => rfl⟩
  | cons first rest ih =>
    have one := onlyBound_bindSource f first
    have two := ih (f.bindSource first)
    exact ⟨two.size.trans one.size, two.roots.trans one.roots,
      fun x => (two.name x).trans (one.name x), fun x => (two.parent x).trans (one.parent x),
      fun x => (two.children x).trans (one.children x)⟩

theorem step_bindAll_of_not_mem (absent : id ∉ bound.map Prod.fst) :
    (bound.foldl bindSource f).step id = f.step id := by
  induction bound generalizing f with
  | nil => rfl
  | cons first rest ih =>
    rw [List.map_cons, List.mem_cons, not_or] at absent
    rw [List.foldl_cons, ih absent.2, step_bindSource, if_neg absent.1]

theorem step_bindAll_of_mem (distinct : (bound.map Prod.fst).Nodup) (member : (id, name) ∈ bound) :
    (bound.foldl bindSource f).step id = rebound name (f.step id) := by
  induction bound generalizing f with
  | nil => cases member
  | cons first rest ih =>
    rw [List.map_cons, List.nodup_cons] at distinct
    rw [List.foldl_cons]
    rcases List.mem_cons.mp member with rfl | later
    · rw [step_bindAll_of_not_mem distinct.1, step_bindSource, if_pos rfl]
    · have other : id ≠ first.1 := fun same =>
        distinct.1 (same ▸ List.mem_map.mpr ⟨(id, name), later, rfl⟩)
      rw [ih distinct.2 later, step_bindSource, if_neg other]

theorem mem_filter_wanted (valid : f.WellFormed) (attached : f.isAttached id = true)
    (output : f.step id = .output b) (required : demand.isRequired b.name = true) :
    id ∈ f.walkAll.filter (f.wanted demand) := by
  refine List.mem_filter.mpr ⟨valid.mem_walkAll_iff.mpr attached, ?_⟩
  unfold wanted
  rw [output]
  exact required

theorem WellFormed.assemble_spec (valid : f.WellFormed) (tops : f.SourcesOnTop) (demand : Demand) :
    ∃ log : List Piece, (f.assemble demand).2 = log.map (·.dataset) ∧
      (Dataset.names (log.map (·.dataset))).Nodup ∧
      (∀ piece ∈ log, Holds f piece.dataset.recipe piece.nodes) ∧
      (log.flatMap (·.nodes)).Nodup ∧
      OnlyBound f (f.assemble demand).1 ∧
      (∀ id, f.isAttached id = false ∨ f.wanted demand id = false →
        (f.assemble demand).1.step id = f.step id) ∧
      ∀ id b, f.isAttached id = true → f.step id = .output b → demand.isRequired b.name = true →
        ∃ source, (f.assemble demand).1.step id = .output { b with source } ∧
          ∀ datasets owner, Filed datasets owner log → (Dataset.names datasets).Nodup →
            f.External datasets → Reads datasets owner source (f.described id) (f.bearers id) := by
  obtain ⟨log, bound, adds, within, wanted, reads⟩ :=
    valid.visitsRoots tops demand f.roots (fun _ root => root) .blank
  rw [← valid.walkAll_eq] at within wanted
  have written : (f.assemble demand).2 = log.map (·.dataset) := adds.datasets
  have rebinds : (f.assemble demand).1 = bound.foldl bindSource f := by
    have all : (emitTrees demand f.trees).bound = bound := adds.bound
    rw [assemble, all]
  have distinct : (bound.map Prod.fst).Nodup := wanted ▸ valid.walkAll_nodup.filter _
  refine ⟨log, written, ?_, adds.holds, valid.walkAll_nodup.sublist within, ?_, ?_, ?_⟩
  · rw [← written]
    exact adds.distinct .nil
  · rw [rebinds]
    exact onlyBound_bindAll f bound
  · intro id other
    rw [rebinds]
    apply step_bindAll_of_not_mem
    intro member
    rw [wanted, List.mem_filter, valid.mem_walkAll_iff] at member
    rcases other with apart | unwanted
    · rw [apart] at member
      cases member.1
    · rw [unwanted] at member
      cases member.2
  · intro id b attached output required
    have member := mem_filter_wanted valid attached output required
    rw [← wanted] at member
    obtain ⟨⟨x, source⟩, bound', rfl⟩ := List.mem_map.mp member
    refine ⟨source, ?_, fun datasets owner filed names external =>
      reads datasets owner filed names external x source bound'⟩
    rw [rebinds, step_bindAll_of_mem distinct bound', output]
    rfl

theorem flatMap_ownerIn {log : List Piece}
    (distinct : (Dataset.names (log.map (·.dataset))).Nodup) :
    (log.map (·.dataset)).flatMap (fun d => ownerIn log d.name) = log.flatMap (·.nodes) := by
  rw [List.flatMap_map]
  apply List.flatMap_congr
  intro piece member
  exact (filed_ownerIn distinct piece member).2

-- Every output that was asked for reads, along the datasets behind its source, the source at its top
-- and then what the nodes down to it do, in order. No node's transforms stand in two datasets, and
-- nothing else about the forest changes.
theorem assemble_reads (valid : f.WellFormed)
    (tops : ∀ id, f.isAttached id = true → (f.step id).isSource = true → id ∈ f.roots)
    (demand : Demand)
    (external : ∀ r ∈ f.roots, ∀ name, f.step r = .source (.named name) →
      name ∉ Dataset.names (f.assemble demand).2) :
    ∃ owner : String → List NodeId,
      (∀ id b, f.isAttached id = true → f.step id = .output b →
        demand.isRequired b.name = true →
        ∃ source ds, (f.assemble demand).1.step id = .output { b with source } ∧
          Chain (f.assemble demand).2 source ds ∧ flattened source ds = f.described id ∧
          ds.flatMap (fun d => owner d.name) = f.bearers id) ∧
      (∀ d ∈ (f.assemble demand).2,
        d.recipe.transforms = (owner d.name).flatMap fun x => (f.step x).transforms) ∧
      ((f.assemble demand).2.flatMap fun d => owner d.name).Nodup ∧
      (∀ id, f.isAttached id = false ∨ f.wanted demand id = false →
        (f.assemble demand).1.step id = f.step id) ∧
      OnlyBound f (f.assemble demand).1 := by
  have onTop : f.SourcesOnTop := fun id attached source =>
    valid.rootTop id (tops id attached source)
  obtain ⟨log, written, names, holds, distinct, only, others, bound⟩ :=
    valid.assemble_spec onTop demand
  refine ⟨ownerIn log, ?_, ?_, ?_, others, only⟩
  · intro id b attached output required
    obtain ⟨source, step, reads⟩ := bound id b attached output required
    obtain ⟨ds, chain, amounts, belong⟩ :=
      reads (f.assemble demand).2 (ownerIn log) (written ▸ filed_ownerIn names) (written ▸ names)
        external
    exact ⟨source, ds, step, chain, amounts, belong⟩
  · rw [written]
    intro d member
    obtain ⟨piece, listed, rfl⟩ := List.mem_map.mp member
    rw [(filed_ownerIn names piece listed).2]
    exact (holds piece listed).transforms
  · rw [written, flatMap_ownerIn names]
    exact distinct

-- A coercion alone below a file is read as part of its format, the formula after it as a transform.
theorem assemble_reads_below_file :
    ∃ f : Forest, f.WellFormed ∧ f.isAttached ⟨3⟩ = true ∧
      ∃ source ds, (f.assemble (Demand.empty.request "v_main")).1.step ⟨3⟩ =
          .output ⟨"v_main", source, .main⟩ ∧
        Chain (f.assemble (Demand.empty.request "v_main")).2 source ds ∧
        flattened source ds = ⟨.remote "cars.csv", some ⟨none, Keyed.empty.put "year" "number"⟩,
          [.formula "datum.year + 1" "next"]⟩ := by
  have root := WellFormed.empty.addRoot "source" (.source (.remote "cars.csv" none))
  have coerced := (root.addUnder (p := ⟨0⟩) (by decide) "parse"
    (.parse (Keyed.empty.put "year" .number))).1
  have computed := (coerced.addUnder (p := ⟨1⟩) (by decide) "formula"
    (.formula "datum.year + 1" "next")).1
  have valid := (computed.addUnder (p := ⟨2⟩) (by decide) "main"
    (.output (.fresh "v_main" .main))).1
  have spec := fun tops => assemble_reads valid tops (Demand.empty.request "v_main")
    fun r root name named => by cases List.mem_singleton.mp root; cases named
  obtain ⟨owner, reads, _⟩ := spec fun id attached source => by
    have member : id ∈ [(⟨0⟩ : NodeId), ⟨1⟩, ⟨2⟩, ⟨3⟩] := valid.mem_walkAll_iff.mpr attached
    simp only [List.mem_cons, List.not_mem_nil, or_false] at member
    rcases member with rfl | rfl | rfl | rfl
    · exact List.mem_singleton.mpr rfl
    all_goals cases source
  obtain ⟨source, ds, step, chain, amounts, _⟩ :=
    reads ⟨3⟩ (.fresh "v_main" .main) (by decide) rfl (by decide)
  exact ⟨_, valid, by decide, source, ds, step, chain, amounts⟩

end Viewflow.Flow.Forest
