import Viewflow.Output.Dataset

namespace Viewflow.Output

variable {α : Type} {datasets : List Dataset} {name source : String} {d : Dataset}
  {ds ds' : List Dataset} {r : Recipe} {owner : String → List α} {owners : List α}

def Recipe.followedBy (r : Recipe) (transforms : List Transform) : Recipe :=
  { r with transforms := r.transforms ++ transforms }

@[simp] theorem Recipe.followedBy_nil (r : Recipe) : r.followedBy [] = r := by
  simp [Recipe.followedBy]

theorem Recipe.followedBy_append (r : Recipe) (one two : List Transform) :
    r.followedBy (one ++ two) = (r.followedBy one).followedBy two := by
  simp [Recipe.followedBy]

theorem Recipe.alias?_eq_some_iff : r.alias? = some source ↔
    r.transforms = [] ∧ r.format = none ∧ r.origin.source? = some source := by
  simp [Recipe.alias?, and_assoc]

def Dataset.find? (datasets : List Dataset) (name : String) : Option Dataset :=
  datasets.find? fun d => d.name == name

theorem Dataset.find?_eq_none_iff :
    Dataset.find? datasets name = none ↔ name ∉ Dataset.names datasets := by
  simp [Dataset.find?, Dataset.names]

theorem Dataset.find?_of_mem (distinct : (Dataset.names datasets).Nodup) (member : d ∈ datasets) :
    Dataset.find? datasets d.name = some d := by
  induction datasets with
  | nil => cases member
  | cons first rest ih =>
    unfold Dataset.names at distinct
    rw [List.map_cons, List.nodup_cons] at distinct
    rcases List.mem_cons.mp member with rfl | later
    · simp [Dataset.find?]
    · have other : first.name ≠ d.name := fun same =>
        distinct.1 (same ▸ List.mem_map.mpr ⟨d, later, rfl⟩)
      have found := ih distinct.2 later
      unfold Dataset.find? at found ⊢
      rw [List.find?_cons_of_neg (by simpa using other), found]

-- The datasets behind a name, the first in front. A name that none of them has stands for data from
-- elsewhere. Only data that is loaded has a format.
inductive Chain (datasets : List Dataset) : String → List Dataset → Prop where
  | outside {name : String} : Dataset.find? datasets name = none → Chain datasets name []
  | loaded {name : String} {d : Dataset} : Dataset.find? datasets name = some d →
      d.recipe.origin.source? = none → Chain datasets name [d]
  | derived {name source : String} {d : Dataset} {ds : List Dataset} :
      Dataset.find? datasets name = some d → d.recipe.origin = .derived source →
      d.recipe.format = none → Chain datasets source ds → Chain datasets name (ds ++ [d])

theorem Chain.unique (one : Chain datasets name ds) (two : Chain datasets name ds') : ds = ds' := by
  induction one generalizing ds' with
  | outside absent =>
    cases two with
    | outside _ => rfl
    | loaded found _ => rw [absent] at found; cases found
    | derived found _ _ _ => rw [absent] at found; cases found
  | loaded found base =>
    cases two with
    | outside absent => rw [absent] at found; cases found
    | loaded found' _ =>
      rw [found] at found'
      cases found'
      rfl
    | derived found' origin _ _ =>
      rw [found] at found'
      cases found'
      rw [origin] at base
      cases base
  | derived found origin _ _ ih =>
    cases two with
    | outside absent => rw [absent] at found; cases found
    | loaded found' base =>
      rw [found] at found'
      cases found'
      rw [origin] at base
      cases base
    | derived found' origin' _ rest =>
      rw [found] at found'
      cases found'
      rw [origin] at origin'
      cases origin'
      rw [ih rest]

def flattened (name : String) : List Dataset → Recipe
  | [] => .derived name
  | d :: rest => d.recipe.followedBy (rest.flatMap (·.recipe.transforms))

theorem flattened_append (origin : d.recipe.origin = .derived source) (plain : d.recipe.format = none)
    (ds : List Dataset) :
    flattened name (ds ++ [d]) = (flattened source ds).followedBy d.recipe.transforms := by
  cases ds with
  | nil =>
    obtain ⟨_, _, _, transforms⟩ := d
    simp only at origin plain
    subst origin plain
    simp [flattened, Recipe.followedBy, Recipe.derived]
  | cons first rest => simp [flattened, Recipe.followedBy]

def Reads (datasets : List Dataset) (owner : String → List α) (name : String) (r : Recipe)
    (owners : List α) : Prop :=
  ∃ ds, Chain datasets name ds ∧ flattened name ds = r ∧ ds.flatMap (fun d => owner d.name) = owners

namespace Reads

theorem outside (absent : name ∉ Dataset.names datasets) :
    Reads datasets owner name (.derived name) [] :=
  ⟨[], .outside (Dataset.find?_eq_none_iff.mpr absent), rfl, rfl⟩

theorem loaded (owner : String → List α) (distinct : (Dataset.names datasets).Nodup) (member : d ∈ datasets)
    (base : d.recipe.origin.source? = none) :
    Reads datasets owner d.name d.recipe (owner d.name) :=
  ⟨[d], .loaded (Dataset.find?_of_mem distinct member) base, by simp [flattened], by simp⟩

theorem derived (distinct : (Dataset.names datasets).Nodup) (member : d ∈ datasets)
    (origin : d.recipe.origin = .derived source) (plain : d.recipe.format = none)
    (reads : Reads datasets owner source r owners) :
    Reads datasets owner d.name (r.followedBy d.recipe.transforms) (owners ++ owner d.name) := by
  obtain ⟨ds, chain, amounts, belong⟩ := reads
  refine ⟨ds ++ [d], .derived (Dataset.find?_of_mem distinct member) origin plain chain, ?_, ?_⟩
  · rw [flattened_append origin plain, amounts]
  · rw [List.flatMap_append, belong]
    simp

end Reads
end Viewflow.Output
