import Viewflow.Proofs.Emission.Trees
import Viewflow.Proofs.Passes.Asked

namespace Viewflow

namespace Output

variable {source : String} {r : Recipe}

-- A bin knows its extent by a signal, which it does not define itself.
def Transform.signals : Transform → List String
  | .extent _ signal => [signal]
  | .bin _ _ _ signal _ _ => [signal]
  | _ => []

def Recipe.signals (r : Recipe) : List String := r.transforms.flatMap Transform.signals

def Dataset.signals (datasets : List Dataset) : List String :=
  datasets.flatMap fun d => d.recipe.signals

@[simp] theorem Recipe.signals_derived (source : String) : (Recipe.derived source).signals = [] := rfl

theorem Recipe.signals_of_alias (repeated : r.alias? = some source) : r.signals = [] := by
  unfold Recipe.signals
  rw [(Recipe.alias?_eq_some_iff.mp repeated).1]
  rfl

end Output

namespace Flow
open Output (Dataset Recipe Transform)

variable {f : Forest} {demand : Demand} {mains : List NodeId} {id : NodeId} {e : Emission}
  {pending : Recipe} {underSource : Bool} {s : Step}

def Step.signals (s : Step) : List String := s.transforms.flatMap Transform.signals

theorem Step.signals_of_parse (parse : s.isParse = true) : s.signals = [] := by
  cases s with
  | parse fields => simp [signals, transforms, coercionFormulas, List.flatMap_map, Transform.signals]
  | _ => cases parse

theorem Step.signals_of_source (source : s.isSource = true) : s.signals = [] := by
  cases s with
  | source data => rfl
  | _ => cases source

@[simp] theorem Step.signals_output (b : Boundary) : (Step.output b).signals = [] := rfl

theorem signals_filter {α : Type} (signals : α → List String) (keep : α → Bool) (l : List α)
    (silent : ∀ a ∈ l, keep a = false → signals a = []) :
    (l.filter keep).flatMap signals = l.flatMap signals := by
  induction l with
  | nil => rfl
  | cons a l ih =>
    have rest := ih fun b listed => silent b (List.mem_cons_of_mem a listed)
    cases kept : keep a with
    | true => rw [List.filter_cons_of_pos kept, List.flatMap_cons, List.flatMap_cons, rest]
    | false =>
      rw [List.filter_cons_of_neg (Bool.eq_false_iff.mp kept), List.flatMap_cons, rest,
        silent a (List.mem_cons_self ..) kept, List.nil_append]

theorem signals_followedBy (r : Recipe) (s : Step) :
    ({ r with transforms := r.transforms ++ s.transforms } : Recipe).signals =
      r.signals ++ s.signals := List.flatMap_append

theorem signals_materialize (e : Emission) (pending : Recipe) (preferred : Option String) :
    Dataset.signals (e.materialize pending preferred).2.datasets =
      Dataset.signals e.datasets ++ pending.signals := by
  rcases Emission.materialize_cases e pending preferred with
    ⟨source, repeated, written⟩ | ⟨_, name, e', written, _, grown, _⟩
  · rw [written, Recipe.signals_of_alias repeated, List.append_nil]
  · rw [written, grown, Dataset.signals, List.flatMap_append, List.flatMap_singleton]
    rfl

theorem signals_absorbStep (demand : Demand) (id : NodeId) (underSource : Bool) (pending : Recipe)
    (e : Emission) (s : Step) :
    Dataset.signals (absorbStep demand id underSource pending e s).2.datasets ++
        (absorbStep demand id underSource pending e s).1.signals =
      Dataset.signals e.datasets ++ pending.signals ++ s.signals := by
  cases s with
  | source data => rw [Step.signals_of_source rfl, List.append_nil]; rfl
  | parse fields =>
    rw [absorbStep]
    split
    · rw [Step.signals_of_parse rfl, List.append_nil]
      rfl
    · rw [signals_followedBy, List.append_assoc]
  | output b =>
    rw [absorbStep]
    split
    · rw [Step.signals_output, List.append_nil]
      exact (List.append_nil _).trans (signals_materialize e pending _)
    · exact (List.append_nil _).symm
  | _ =>
    simp only [absorbStep]
    rw [signals_followedBy, List.append_assoc]

theorem rest_absorbStep (wanted : f.wanted demand id = true) :
    (absorbStep demand id underSource pending e (f.step id)).1.signals = [] := by
  unfold Forest.wanted at wanted
  split at wanted
  · next b output =>
    rw [output, absorbStep, if_pos wanted]
    rfl
  · cases wanted

namespace Forest

def signals (f : Forest) (ids : List NodeId) : List String := ids.flatMap fun id => (f.step id).signals

def Spills (f : Forest) (demand : Demand) (id : NodeId) : Prop :=
  ∀ underSource pending e,
    Dataset.signals (emitTree demand underSource pending e (f.tree id)).datasets =
      Dataset.signals e.datasets ++ pending.signals ++ f.signals (f.tree id).ids

theorem signals_branches (demand : Demand) (underSource : Bool) (source : String) (cs : List NodeId)
    (each : ∀ c ∈ cs, f.Spills demand c) (e : Emission) :
    Dataset.signals (emitBranches demand underSource source e (cs.map f.tree)).datasets =
      Dataset.signals e.datasets ++ f.signals (cs.flatMap fun c => (f.tree c).ids) := by
  induction cs generalizing e with
  | nil =>
    rw [List.map_nil, emitBranches]
    exact (List.append_nil _).symm
  | cons c cs ih =>
    have first := each c (List.mem_cons_self ..) underSource (.derived source) e
    rw [Recipe.signals_derived, List.append_nil] at first
    rw [List.map_cons, emitBranches, ih (fun x member => each x (List.mem_cons_of_mem _ member)), first,
      List.flatMap_cons, Forest.signals, Forest.signals, Forest.signals, List.flatMap_append,
      List.append_assoc]

namespace WellFormed

variable (valid : f.WellFormed)
include valid

theorem spills (asked : f.Asked demand mains) (id : NodeId) (attached : f.isAttached id = true) :
    f.Spills demand id := by
  refine valid.downward (motive := fun id => f.isAttached id = true → f.Spills demand id)
    (fun id ih attached => ?_) id attached
  intro underSource pending e
  have below : ∀ c ∈ f.children id, f.Spills demand c := fun c listed =>
    ih c listed ((valid.attached_iff_parent (valid.pointsBack id c listed)).mpr attached)
  have absorbed := signals_absorbStep demand id underSource pending e (f.step id)
  have own : f.signals (f.tree id).ids =
      (f.step id).signals ++ f.signals ((f.children id).flatMap fun c => (f.tree c).ids) := by
    rw [valid.ids_tree]
    rfl
  rw [own, ← List.append_assoc, ← absorbed, valid.tree_eq, emitTree_node]
  cases listing : f.children id with
  | nil =>
    rw [List.map_nil, emitChildren, rest_absorbStep (asked.tips id attached listing),
      List.append_nil]
    exact (List.append_nil _).symm
  | cons c rest =>
    rw [listing] at below
    cases rest with
    | nil =>
      rw [List.map_singleton, emitChildren, below c (List.mem_cons_self ..), List.flatMap_singleton]
    | cons d rest =>
      rw [List.map_cons, List.map_cons, emitChildren_fork, ← List.map_cons, ← List.map_cons,
        signals_branches demand _ _ _ below, signals_materialize]

-- The datasets define the signals of all attached nodes, each node's once.
theorem signals_assemble (asked : f.Asked demand mains) :
    Dataset.signals (f.assemble demand).2 = f.signals f.walkAll := by
  have each : ∀ roots : List NodeId, (∀ r ∈ roots, r ∈ f.roots) → ∀ e : Emission,
      Dataset.signals ((roots.map f.tree).foldl
          (fun e t => emitTree demand false (rootRecipe t.step) e t) e).datasets =
        Dataset.signals e.datasets ++ f.signals (roots.flatMap fun r => (f.tree r).ids) := by
    intro roots
    induction roots with
    | nil => exact fun _ e => (List.append_nil _).symm
    | cons r roots ih =>
      intro within e
      have root := within r (List.mem_cons_self ..)
      have first := valid.spills asked r (valid.attached_of_root root) false
        (rootRecipe (f.step r)) e
      rw [Recipe.signals, transforms_rootRecipe, List.flatMap_nil, List.append_nil] at first
      rw [List.map_cons, List.foldl_cons, ih (fun x member => within x (List.mem_cons_of_mem _ member)),
        step_tree, first, List.flatMap_cons, Forest.signals, Forest.signals, Forest.signals,
        List.flatMap_append, List.append_assoc]
  have all := each f.roots (fun _ root => root) .blank
  rw [← valid.walkAll_eq] at all
  exact all

end WellFormed
end Forest
end Flow
end Viewflow
