import Viewflow.Proofs.Emission.Visit

namespace Viewflow.Flow.Forest
open Output (Dataset Recipe Reads)

variable {f : Forest} {demand : Demand} {id : NodeId} {e e' : Emission} {pending : Recipe}
  {nodes ids owners : List NodeId} {r : Recipe} {underSource : Bool}

theorem visits_of_absorbs (valid : f.WellFormed) (tops : f.SourcesOnTop)
    (attached : f.isAttached id = true) {result : Recipe × Emission}
    (absorbs : Absorbs f demand id pending nodes e result)
    (rest : ∀ nodes', Holds f result.1 nodes' →
      Visits f demand (Stands · · result.1 nodes' (f.described id) (f.bearers id)) result.2 e' nodes'
        ids) :
    Visits f demand (Stands · · pending nodes (f.before id) (f.bearersBefore id)) e e' nodes
      (id :: ids) := by
  obtain ⟨nodes', log, bound, adds, holds, within, wanted, stands⟩ := absorbs
  obtain ⟨log', bound', adds', within', wanted', reads'⟩ := rest nodes' holds
  refine ⟨log ++ log', bound ++ bound', adds.seq adds', ?_, ?_, ?_⟩
  · rw [List.flatMap_append, List.append_cons]
    apply ((List.Sublist.refl _).append within').trans
    rw [← List.append_assoc]
    exact within.append (List.Sublist.refl ids)
  · rw [List.map_append, wanted, wanted', ← List.filter_append]
    rfl
  · intro datasets owner filed distinct known x name member
    obtain ⟨filed, filed'⟩ := filed.append
    have after := stands datasets owner filed distinct _ _ known
    rw [← valid.described_eq_behind tops attached, ← valid.bearers_eq_behind] at after
    rcases List.mem_append.mp member with first | second
    · obtain ⟨rfl, reads⟩ := after.2 x name first
      exact reads
    · exact reads' datasets owner filed' distinct after.1 x name second

theorem visits_of_materialize (holds : Holds f pending nodes) (e : Emission)
    (rest : ∀ name e₁, e.materialize pending none = (name, e₁) →
      Visits f demand (Reads · · name r owners) e₁ e' [] ids) :
    Visits f demand (Stands · · pending nodes r owners) e e' nodes ids := by
  obtain ⟨name, e₁, log, written, adds, within, reads⟩ := materialize_spec e none holds
  obtain ⟨log', bound', adds', within', wanted', reads'⟩ := rest name e₁ written
  refine ⟨log ++ log', [] ++ bound', adds.seq adds', ?_, wanted', ?_⟩
  · rw [List.flatMap_append]
    exact within.append within'
  · intro datasets owner filed distinct known x text member
    obtain ⟨filed, filed'⟩ := filed.append
    exact reads' datasets owner filed' distinct (reads datasets owner filed distinct _ _ known) x
      text member

-- How a node is met: a coercion knows whether it is done while the data is loaded, and a source is
-- met with its own recipe.
structure Ready (f : Forest) (id : NodeId) (underSource : Bool) (pending : Recipe) : Prop where
  folds : (f.step id).isParse = true → foldsIntoFormat underSource pending = f.loads id
  source : (f.step id).isSource = true → pending = rootRecipe (f.step id)

def VisitsTree (f : Forest) (demand : Demand) (id : NodeId) : Prop :=
  ∀ underSource pending nodes e, Ready f id underSource pending → Holds f pending nodes →
    Visits f demand (Stands · · pending nodes (f.before id) (f.bearersBefore id)) e
      (emitTree demand underSource pending e (f.tree id)) nodes (f.tree id).ids

theorem foldsIntoFormat_rootRecipe (s : Step) :
    foldsIntoFormat s.isSource (rootRecipe s) = s.isFile := by
  cases s with
  | source data => cases data <;> rfl
  | _ => rfl

theorem foldsIntoFormat_derived (underSource : Bool) (source : String) :
    foldsIntoFormat underSource (.derived source) = false := by
  simp [foldsIntoFormat, Recipe.derived, Output.Origin.source?]

theorem emitChildren_fork (demand : Demand) (underSource : Bool) (pending : Recipe) (e : Emission)
    (first second : Tree) (rest : List Tree) :
    emitChildren demand underSource pending e (first :: second :: rest) =
      emitBranches demand underSource (e.materialize pending none).1 (e.materialize pending none).2
        (first :: second :: rest) := by
  simp only [emitChildren, emitBranches]

theorem emitTree_node (demand : Demand) (underSource : Bool) (pending : Recipe) (e : Emission)
    (id : NodeId) (step : Step) (children : List Tree) :
    emitTree demand underSource pending e (.node id step children) =
      emitChildren demand step.isSource (absorbStep demand id underSource pending e step).1
        (absorbStep demand id underSource pending e step).2 children := by
  rw [emitTree]

theorem absorbStep_source (source : (f.step id).isSource = true) (e : Emission) :
    absorbStep demand id underSource pending e (f.step id) = (pending, e) := by
  cases step : f.step id with
  | source data => rfl
  | _ => rw [step] at source; cases source

variable (valid : f.WellFormed) (tops : f.SourcesOnTop) (attached : f.isAttached id = true)
include valid tops attached

theorem ready_single {c : NodeId} (single : f.children id = [c])
    (source : (f.step id).isSource = true → pending = rootRecipe (f.step id)) :
    Ready f c (f.step id).isSource pending := by
  have named : f.parent? c = some id := valid.pointsBack id c (by simp [single])
  refine ⟨?_, ?_⟩
  · intro parse
    have decided : f.loads c = (f.step id).isFile := by
      rw [Bool.eq_iff_iff, loads_iff named]
      simp [parse, single]
    rw [decided]
    cases isSource : (f.step id).isSource with
    | true => rw [source isSource, ← isSource, foldsIntoFormat_rootRecipe]
    | false =>
      have plain : (f.step id).isFile = false := by
        rw [Bool.eq_false_iff]
        intro file
        rw [Step.isSource_of_isFile file] at isSource
        cases isSource
      rw [plain]
      rfl
  · intro below
    have top := tops c ((valid.attached_iff_parent named).mpr attached) below
    rw [top] at named
    cases named

theorem ready_branch {c : NodeId} (named : f.parent? c = some id)
    (fork : f.children id ≠ [c]) (source : String) :
    Ready f c underSource (.derived source) := by
  refine ⟨?_, ?_⟩
  · intro _
    rw [foldsIntoFormat_derived, eq_comm, Bool.eq_false_iff, Ne, loads_iff named]
    exact fun loaded => fork loaded.2.1
  · intro below
    have top := tops c ((valid.attached_iff_parent named).mpr attached) below
    rw [top] at named
    cases named

theorem visits_branches (source : String) (cs : List NodeId)
    (under : ∀ c ∈ cs, f.parent? c = some id ∧ f.children id ≠ [c] ∧ VisitsTree f demand c)
    (e : Emission) :
    Visits f demand (Reads · · source (f.described id) (f.bearers id)) e
      (emitBranches demand underSource source e (cs.map f.tree)) []
      (cs.flatMap fun c => (f.tree c).ids) := by
  induction cs generalizing e with
  | nil =>
    rw [List.map_nil, emitBranches]
    exact .refl e []
  | cons c cs ih =>
    rw [List.map_cons, emitBranches, List.flatMap_cons]
    obtain ⟨named, fork, visit⟩ := under c (List.mem_cons_self ..)
    have first := visit underSource (.derived source) [] e
      (ready_branch valid tops attached named fork source) (.nil rfl)
    rw [before_under named, bearersBefore_under named] at first
    apply (first.weaken fun _ _ reads => Stands.of_reads reads).seq
    exact ih (fun c member => under c (List.mem_cons_of_mem _ member)) _

omit attached in
theorem visitsTree (demand : Demand) (id : NodeId) (attached : f.isAttached id = true) : VisitsTree f demand id := by
  refine valid.downward (motive := fun id => f.isAttached id = true → VisitsTree f demand id)
    (fun id ih attached => ?_) id attached
  intro underSource pending nodes e ready holds
  have below : ∀ c ∈ f.children id, f.parent? c = some id ∧ VisitsTree f demand c := by
    intro c listed
    have named := valid.pointsBack id c listed
    exact ⟨named, ih c listed ((valid.attached_iff_parent named).mpr attached)⟩
  have absorbs := absorbStep_spec demand holds e ready.folds
  have source : (f.step id).isSource = true →
      (absorbStep demand id underSource pending e (f.step id)).1 = rootRecipe (f.step id) := by
    intro isSource
    rw [absorbStep_source isSource]
    exact ready.source isSource
  rw [valid.tree_eq, emitTree_node, Tree.ids, Tree.idsOfEach_eq, List.flatMap_map]
  apply visits_of_absorbs valid tops attached absorbs
  intro nodes' holds'
  generalize absorbStep demand id underSource pending e (f.step id) = result at source holds' ⊢
  cases listing : f.children id with
  | nil =>
    rw [List.map_nil, emitChildren]
    exact .refl result.2 nodes'
  | cons c rest =>
    rw [listing] at below
    cases rest with
    | nil =>
      obtain ⟨named, visit⟩ := below c (List.mem_cons_self ..)
      have single := visit _ result.1 nodes' result.2
        (ready_single valid tops attached listing source) holds'
      rw [before_under named, bearersBefore_under named] at single
      rw [List.map_singleton, emitChildren, List.flatMap_singleton]
      exact single
    | cons d rest =>
      have fork : ∀ x, f.children id ≠ [x] := by
        intro x same
        rw [listing] at same
        cases same
      rw [List.map_cons, List.map_cons, emitChildren_fork, ← List.map_cons, ← List.map_cons]
      apply visits_of_materialize holds' result.2
      intro name e₁ written
      rw [written]
      exact visits_branches valid tops attached name (c :: d :: rest)
        (fun x member => ⟨(below x member).1, fork x, (below x member).2⟩) e₁

end Viewflow.Flow.Forest
