import Viewflow.Proofs.Emission.Assembled
import Viewflow.Proofs.Passes.Asked

namespace Viewflow

namespace Output

variable {datasets more : List Dataset} {name source last : String}

inductive Leads (datasets : List Dataset) : String → String → Prop where
  | here {name : String} : Leads datasets name name
  | behind {name source last : String} {d : Dataset} : d ∈ datasets → d.name = name →
      d.recipe.origin = .derived source → Leads datasets source last → Leads datasets name last

theorem Leads.trans (one : Leads datasets name source) (two : Leads datasets source last) :
    Leads datasets name last := by
  induction one with
  | here => exact two
  | behind member named origin _ ih => exact .behind member named origin (ih two)

theorem Leads.weaken (leads : Leads datasets name last) (sub : datasets ⊆ more) :
    Leads more name last := by
  induction leads with
  | here => exact .here
  | behind member named origin _ ih => exact .behind (sub member) named origin ih

theorem Origin.source?_eq_some_iff {o : Origin} : o.source? = some source ↔ o = .derived source := by
  cases o <;> simp [Origin.source?]

end Output

namespace Flow.Forest
open Output (Dataset Leads Recipe)

variable {f : Forest} {demand : Demand} {mains : List NodeId} {id c : NodeId} {e e' e'' : Emission}
  {pending : Recipe} {underSource : Bool} {upper upper' : Option String} {ds ds' : List Dataset}
  {bound bound' : List (NodeId × String)} {name source : String}

def outside (f : Forest) (id : NodeId) (name : String) : Prop :=
  (rootRecipe (f.step (f.top id))).origin = .derived name

def Placed (f : Forest) (id : NodeId) (upper : Option String) (e : Emission) : Prop :=
  ∀ source, upper = some source → source ∈ Dataset.names e.datasets ∨ f.outside id source

-- What a stretch of the emission writes out is used by the outputs that it binds, and so is what it
-- derives from.
structure Feeds (f : Forest) (upper : Option String) (e e' : Emission) (ds : List Dataset)
    (bound : List (NodeId × String)) : Prop where
  datasets : e'.datasets = e.datasets ++ ds
  binds : e'.bound = e.bound ++ bound
  used : ∀ d ∈ ds, ∃ b ∈ bound, Leads e'.datasets b.2 d.name
  named : ∀ b ∈ bound, b.2 ∈ Dataset.names e'.datasets ∨ f.outside b.1 b.2
  fed : ∀ source, upper = some source → ∃ b ∈ bound, Leads e'.datasets b.2 source

namespace Feeds

theorem refl (f : Forest) (e : Emission) : Feeds f none e e [] [] := by
  refine ⟨(List.append_nil _).symm, (List.append_nil _).symm, ?_, ?_, ?_⟩
  · intro d member
    cases member
  · intro b member
    cases member
  · intro source none
    cases none

theorem grows (feeds : Feeds f upper e e' ds bound) : e.datasets ⊆ e'.datasets := by
  rw [feeds.datasets]
  exact List.subset_append_left ..

theorem names (feeds : Feeds f upper e e' ds bound) :
    Dataset.names e.datasets ⊆ Dataset.names e'.datasets := List.map_subset _ feeds.grows

theorem placed (feeds : Feeds f upper e e' ds bound) (placed : Placed f id upper' e) :
    Placed f id upper' e' :=
  fun source same => (placed source same).imp_left fun member => feeds.names member

theorem seq (one : Feeds f upper e e' ds bound) (two : Feeds f upper' e' e'' ds' bound') :
    Feeds f upper e e'' (ds ++ ds') (bound ++ bound') where
  datasets := by rw [two.datasets, one.datasets, List.append_assoc]
  binds := by rw [two.binds, one.binds, List.append_assoc]
  used d member := by
    rcases List.mem_append.mp member with first | second
    · obtain ⟨b, listed, leads⟩ := one.used d first
      exact ⟨b, List.mem_append_left _ listed, leads.weaken two.grows⟩
    · obtain ⟨b, listed, leads⟩ := two.used d second
      exact ⟨b, List.mem_append_right _ listed, leads⟩
  named b member := by
    rcases List.mem_append.mp member with first | second
    · exact (one.named b first).imp_left fun member => two.names member
    · exact two.named b second
  fed source same := by
    obtain ⟨b, listed, leads⟩ := one.fed source same
    exact ⟨b, List.mem_append_left _ listed, leads.weaken two.grows⟩

end Feeds

-- The name that is handed over stands for what is pending, so that whoever uses the name uses what was
-- pending derives from.
structure Handed (f : Forest) (id : NodeId) (upper : Option String) (e e' : Emission)
    (name : String) (ds : List Dataset) : Prop where
  datasets : e'.datasets = e.datasets ++ ds
  binds : e'.bound = e.bound
  own : ∀ d ∈ ds, d.name = name
  placed : Placed f id (some name) e'
  leads : ∀ source, upper = some source → Leads e'.datasets name source

theorem handed_materialize (placed : Placed f id pending.origin.source? e) (preferred : Option String) :
    ∃ name e' ds, e.materialize pending preferred = (name, e') ∧
      Handed f id pending.origin.source? e e' name ds := by
  rcases Emission.materialize_cases e pending preferred with
    ⟨source, repeated, same⟩ | ⟨_, name, e', written, _, grown, bound⟩
  · obtain ⟨_, _, origin⟩ := Recipe.alias?_eq_some_iff.mp repeated
    refine ⟨source, e, [], same, (List.append_nil _).symm, rfl, by simp, ?_, ?_⟩
    · intro source' same
      cases same
      exact placed source origin
    · intro source' same
      rw [origin] at same
      cases same
      exact .here
  · have member : ⟨name, pending⟩ ∈ e'.datasets := grown ▸ List.mem_append_right _ (by simp)
    refine ⟨name, e', [⟨name, pending⟩], written, grown, bound, by simp, ?_, ?_⟩
    · intro source same
      cases same
      exact .inl (List.mem_map.mpr ⟨_, member, rfl⟩)
    · intro source origin
      exact .behind member rfl (Output.Origin.source?_eq_some_iff.mp origin) .here

theorem Handed.feeds (handed : Handed f id upper e e' name ds)
    (feeds : Feeds f (some name) e' e'' ds' bound) : Feeds f upper e e'' (ds ++ ds') bound where
  datasets := by rw [feeds.datasets, handed.datasets, List.append_assoc]
  binds := by rw [feeds.binds, handed.binds]
  used d member := by
    rcases List.mem_append.mp member with first | second
    · rw [handed.own d first]
      exact feeds.fed name rfl
    · exact feeds.used d second
  named := feeds.named
  fed source same := by
    obtain ⟨b, listed, leads⟩ := feeds.fed name rfl
    exact ⟨b, listed, leads.trans ((handed.leads source same).weaken feeds.grows)⟩

theorem Handed.given (handed : Handed f id upper e e' name ds) :
    Feeds f (some name) e' { e' with bound := e'.bound ++ [(id, name)] } [] [(id, name)] where
  datasets := (List.append_nil _).symm
  binds := rfl
  used d member := by cases member
  named b member := by
    rw [List.mem_singleton.mp member]
    exact handed.placed name rfl
  fed source same := by
    cases same
    exact ⟨_, List.mem_singleton.mpr rfl, .here⟩

def FeedsTree (f : Forest) (demand : Demand) (id : NodeId) : Prop :=
  ∀ underSource pending e, Placed f id pending.origin.source? e →
    ∃ ds bound, Feeds f pending.origin.source? e
      (emitTree demand underSource pending e (f.tree id)) ds bound

theorem absorbStep_unwanted (underSource : Bool) (pending : Recipe) (e : Emission)
    (unwanted : f.wanted demand id = false) :
    (absorbStep demand id underSource pending e (f.step id)).1.origin = pending.origin ∧
      (absorbStep demand id underSource pending e (f.step id)).2 = e := by
  cases step : f.step id with
  | output b =>
    have silent : demand.isRequired b.name = false := by simpa [wanted, step] using unwanted
    simp [absorbStep, silent]
  | parse fields =>
    simp only [absorbStep]
    split <;> exact ⟨rfl, rfl⟩
  | _ => exact ⟨rfl, rfl⟩

theorem absorbStep_wanted {b : Boundary} (output : f.step id = .output b)
    (required : demand.isRequired b.name = true)
    (written : e.materialize pending (some b.name) = (name, e')) :
    absorbStep demand id underSource pending e (f.step id) =
      (.derived name, { e' with bound := e'.bound ++ [(id, name)] }) := by
  rw [output, absorbStep, if_pos required, written]

namespace WellFormed

variable (valid : f.WellFormed)
include valid

theorem outside_under (named : f.parent? c = some id) : f.outside c name ↔ f.outside id name := by
  rw [outside, outside, valid.top_under named]

theorem placed_under (named : f.parent? c = some id) (placed : Placed f id upper e) :
    Placed f c upper e :=
  fun source same => (placed source same).imp_right (valid.outside_under named).mpr

theorem feeds_branches (source : String) (cs : List NodeId)
    (each : ∀ c ∈ cs, f.parent? c = some id ∧ FeedsTree f demand c) (e : Emission)
    (placed : Placed f id (some source) e) :
    ∃ ds bound, Feeds f none e (emitBranches demand underSource source e (cs.map f.tree)) ds bound := by
  induction cs generalizing e with
  | nil =>
    rw [List.map_nil, emitBranches]
    exact ⟨_, _, .refl f e⟩
  | cons c cs ih =>
    rw [List.map_cons, emitBranches]
    obtain ⟨named, tree⟩ := each c (List.mem_cons_self ..)
    obtain ⟨ds, bound, first⟩ := tree underSource (.derived source) e (valid.placed_under named placed)
    obtain ⟨ds', bound', rest⟩ := ih (fun c member => each c (List.mem_cons_of_mem _ member)) _
      (first.placed placed)
    have all := (Feeds.refl f e).seq (first.seq rest)
    exact ⟨_, _, all⟩

theorem feeds_children (underSource : Bool) (pending : Recipe)
    (placed : Placed f id pending.origin.source? e) (filled : f.children id ≠ [])
    (each : ∀ c ∈ f.children id, FeedsTree f demand c) :
    ∃ ds bound, Feeds f pending.origin.source? e
      (emitChildren demand underSource pending e ((f.children id).map f.tree)) ds bound := by
  have under : ∀ c ∈ f.children id, f.parent? c = some id ∧ FeedsTree f demand c :=
    fun c listed => ⟨valid.pointsBack id c listed, each c listed⟩
  generalize f.children id = cs at filled under
  match cs with
  | [] => exact (filled rfl).elim
  | [c] =>
    obtain ⟨named, tree⟩ := under c (List.mem_cons_self ..)
    rw [List.map_singleton, emitChildren]
    exact tree underSource pending e (valid.placed_under named placed)
  | c :: d :: rest =>
    -- Where the tree forks, the first branch answers for what is handed to all of them.
    rw [List.map_cons, List.map_cons, emitChildren_fork, emitBranches, ← List.map_cons]
    obtain ⟨name, e₁, ds₁, written, handed⟩ := handed_materialize placed none
    rw [written]
    obtain ⟨named, tree⟩ := under c (List.mem_cons_self ..)
    obtain ⟨ds, bound, first⟩ := tree underSource (.derived name) e₁
      (valid.placed_under named handed.placed)
    obtain ⟨ds', bound', others⟩ := valid.feeds_branches name (d :: rest)
      (fun x member => under x (List.mem_cons_of_mem _ member)) _ (first.placed handed.placed)
    exact ⟨_, _, handed.feeds (first.seq others)⟩

theorem feedsTree (asked : f.Asked demand mains) (id : NodeId) (attached : f.isAttached id = true) :
    FeedsTree f demand id := by
  refine valid.downward (motive := fun id => f.isAttached id = true → FeedsTree f demand id) ?_ id attached
  intro id ih attached underSource pending e placed
  have each : ∀ c ∈ f.children id, FeedsTree f demand c := fun c listed =>
    ih c listed ((valid.attached_iff_parent (valid.pointsBack id c listed)).mpr attached)
  rw [valid.tree_eq, emitTree_node]
  cases wanted : f.wanted demand id with
  | false =>
    obtain ⟨origin, same⟩ := absorbStep_unwanted underSource pending e wanted
    have filled : f.children id ≠ [] := by
      intro childless
      rw [asked.tips id attached childless] at wanted
      cases wanted
    rw [same, ← origin]
    exact valid.feeds_children _ _ (by rw [origin]; exact placed) filled each
  | true =>
    have step : ∃ b, f.step id = .output b ∧ demand.isRequired b.name = true := by
      unfold Forest.wanted at wanted
      split at wanted
      · next b output => exact ⟨b, output, wanted⟩
      · cases wanted
    obtain ⟨b, output, required⟩ := step
    obtain ⟨name, e₁, ds₁, written, handed⟩ := handed_materialize placed (some b.name)
    rw [absorbStep_wanted output required written]
    by_cases childless : f.children id = []
    · rw [childless, List.map_nil, emitChildren]
      exact ⟨_, _, handed.feeds handed.given⟩
    · have given := handed.given
      obtain ⟨ds, bound, below⟩ := valid.feeds_children (f.step id).isSource (.derived name)
        (given.placed handed.placed) childless each
      exact ⟨_, _, handed.feeds (given.seq below)⟩

theorem placed_root (root : id ∈ f.roots) (e : Emission) :
    Placed f id (rootRecipe (f.step id)).origin.source? e := by
  intro source origin
  right
  rw [outside, valid.top_top (valid.rootTop id root)]
  exact Output.Origin.source?_eq_some_iff.mp origin

theorem feeds_roots (asked : f.Asked demand mains) (roots : List NodeId)
    (within : ∀ r ∈ roots, r ∈ f.roots) (e : Emission) :
    ∃ ds bound, Feeds f none e
      ((roots.map f.tree).foldl (fun e t => emitTree demand false (rootRecipe t.step) e t) e) ds
      bound := by
  induction roots generalizing e with
  | nil => exact ⟨_, _, .refl f e⟩
  | cons r roots ih =>
    have root := within r (List.mem_cons_self ..)
    rw [List.map_cons, List.foldl_cons, step_tree]
    obtain ⟨ds, bound, first⟩ := valid.feedsTree asked r (valid.attached_of_root root) false
      (rootRecipe (f.step r)) e (valid.placed_root root e)
    obtain ⟨ds', bound', rest⟩ := ih (fun r member => within r (List.mem_cons_of_mem _ member)) _
    exact ⟨_, _, (Feeds.refl f e).seq (first.seq rest)⟩

theorem bound_emitTrees (tops : f.SourcesOnTop) (demand : Demand) :
    (emitTrees demand f.trees).bound.map Prod.fst = f.walkAll.filter (f.wanted demand) := by
  obtain ⟨log, bound, adds, _, wanted, _⟩ :=
    valid.visitsRoots tops demand f.roots (fun _ root => root) .blank
  have all : (emitTrees demand f.trees).bound = bound := adds.bound
  rw [all, wanted, valid.walkAll_eq]

theorem rebound_emitTrees (tops : f.SourcesOnTop) {b : NodeId × String}
    (member : b ∈ (emitTrees demand f.trees).bound) :
    f.isAttached b.1 = true ∧ f.wanted demand b.1 = true ∧
      ∃ o, f.step b.1 = .output o ∧ (f.assemble demand).1.step b.1 = .output { o with source := b.2 } := by
  have ids := valid.bound_emitTrees tops demand
  have distinct : ((emitTrees demand f.trees).bound.map Prod.fst).Nodup :=
    ids ▸ valid.walkAll_nodup.filter _
  have listed : b.1 ∈ (emitTrees demand f.trees).bound.map Prod.fst := List.mem_map_of_mem member
  rw [ids, List.mem_filter, valid.mem_walkAll_iff] at listed
  refine ⟨listed.1, listed.2, ?_⟩
  have wanted := listed.2
  unfold Forest.wanted at wanted
  split at wanted
  · next o output =>
    refine ⟨o, output, ?_⟩
    rw [assemble, step_bindAll_of_mem distinct member, output]
    rfl
  · cases wanted

-- Every dataset lies behind an output that was asked for, and every such output is bound to a dataset
-- or to the data from elsewhere at its root.
theorem assemble_used (tops : f.SourcesOnTop) (asked : f.Asked demand mains) :
    (∀ d ∈ (f.assemble demand).2, ∃ id ∈ mains, ∃ o, (f.assemble demand).1.step id = .output o ∧
      Leads (f.assemble demand).2 o.source d.name) ∧
    ∀ id, f.isAttached id = true → f.wanted demand id = true →
      ∃ o, (f.assemble demand).1.step id = .output o ∧
        (o.source ∈ Dataset.names (f.assemble demand).2 ∨ f.outside id o.source) := by
  obtain ⟨ds, bound, feeds⟩ := valid.feeds_roots asked f.roots (fun _ root => root) .blank
  have written : (f.assemble demand).2 = ds := feeds.datasets
  have binds : (emitTrees demand f.trees).bound = bound := feeds.binds
  refine ⟨?_, ?_⟩
  · intro d member
    obtain ⟨b, listed, leads⟩ := feeds.used d (written ▸ member)
    obtain ⟨attached, wanted, o, _, step⟩ := valid.rebound_emitTrees tops (binds ▸ listed)
    exact ⟨b.1, asked.wanted b.1 attached wanted, _, step, leads⟩
  · intro id attached wanted
    have listed : id ∈ (emitTrees demand f.trees).bound.map Prod.fst := by
      rw [valid.bound_emitTrees tops]
      exact List.mem_filter.mpr ⟨valid.mem_walkAll_iff.mpr attached, wanted⟩
    obtain ⟨b, member, rfl⟩ := List.mem_map.mp listed
    obtain ⟨_, _, o, _, step⟩ := valid.rebound_emitTrees tops member
    exact ⟨_, step, feeds.named b (binds ▸ member)⟩

end WellFormed

end Flow.Forest
end Viewflow
