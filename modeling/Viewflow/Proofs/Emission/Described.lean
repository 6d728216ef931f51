import Viewflow.Flow.Emit
import Viewflow.Proofs.Emission.Chain
import Viewflow.Proofs.Forest.Route

namespace Viewflow.Flow
open Output (Recipe Transform)

def Step.isFile : Step → Bool
  | .source (.remote ..) | .source (.inline _) => true
  | _ => false

theorem Step.isSource_of_isFile {s : Step} (file : s.isFile = true) : s.isSource = true := by
  cases s with
  | source _ => rfl
  | _ => cases file

theorem transforms_rootRecipe (s : Step) : (rootRecipe s).transforms = [] := by
  cases s with
  | source data => cases data <;> rfl
  | _ => rfl

namespace Forest

variable {f : Forest} {id p : NodeId} {fields : Keyed String Coercion}

-- A coercion that is all there is below a file is done while the file is loaded.
def loads (f : Forest) (id : NodeId) : Bool :=
  match f.parent? id, f.step id with
  | some p, .parse _ => decide (f.children p = [id]) && (f.step p).isFile
  | _, _ => false

def path (f : Forest) (id : NodeId) : List NodeId := (f.lineage id).reverse

def loadedWith (r : Recipe) : Step → Recipe
  | .parse fields => withCoercions r fields
  | _ => r

def base (f : Forest) (id : NodeId) : Recipe :=
  let r := rootRecipe (f.step (f.top id))
  match (f.path id).find? f.loads with
  | some c => loadedWith r (f.step c)
  | none => r

def described (f : Forest) (id : NodeId) : Recipe :=
  (f.base id).followedBy
    (((f.path id).filter fun x => !f.loads x).flatMap fun x => (f.step x).transforms)

def bears (f : Forest) (id : NodeId) : Bool := !(f.step id).transforms.isEmpty

def bearers (f : Forest) (id : NodeId) : List NodeId :=
  ((f.path id).filter fun x => !f.loads x).filter f.bears

theorem loads_top (top : f.parent? id = none) : f.loads id = false := by simp [loads, top]

theorem loads_of_not_parse (other : (f.step id).isParse = false) : f.loads id = false := by
  unfold loads
  split
  · next coerces => rw [coerces] at other; cases other
  · rfl

theorem loads_iff (named : f.parent? id = some p) :
    f.loads id = true ↔ (f.step id).isParse = true ∧ f.children p = [id] ∧
      (f.step p).isFile = true := by
  unfold loads
  rw [named]
  cases coerces : f.step id <;> simp [Step.isParse]

namespace WellFormed

theorem path_top (valid : f.WellFormed) (top : f.parent? id = none) : f.path id = [id] := by
  unfold path
  rw [valid.lineage_top top]
  rfl

theorem path_under (valid : f.WellFormed) (named : f.parent? id = some p) :
    f.path id = f.path p ++ [id] := by
  rw [path, valid.lineage_under named, List.reverse_cons]
  rfl

theorem top_top (valid : f.WellFormed) (top : f.parent? id = none) : f.top id = id := by
  unfold Forest.top
  rw [valid.lineage_top top]
  rfl

theorem top_under (valid : f.WellFormed) (named : f.parent? id = some p) : f.top id = f.top p := by
  obtain ⟨top, last, _⟩ := (valid.lineage_line p).exists_top
  rw [Forest.top, Forest.top, valid.lineage_under named, List.getLastD_eq_getLast?,
    List.getLastD_eq_getLast?, List.getLast?_cons, last]
  rfl

theorem base_top (valid : f.WellFormed) (top : f.parent? id = none) :
    f.base id = rootRecipe (f.step id) := by
  simp [base, valid.path_top top, valid.top_top top, loads_top top]

theorem base_under (valid : f.WellFormed) (named : f.parent? id = some p)
    (later : f.loads id = false) : f.base id = f.base p := by
  simp only [base, valid.path_under named, valid.top_under named, List.find?_append]
  simp [later]

theorem base_loaded (valid : f.WellFormed) (named : f.parent? id = some p)
    (top : f.parent? p = none) (loaded : f.loads id = true) (coerces : f.step id = .parse fields) :
    f.base id = withCoercions (rootRecipe (f.step p)) fields := by
  simp only [base, valid.path_under named, valid.top_under named, valid.path_top top,
    valid.top_top top]
  simp [loads_top top, loaded, coerces, loadedWith]

theorem described_top (valid : f.WellFormed) (top : f.parent? id = none) :
    f.described id = (rootRecipe (f.step id)).followedBy (f.step id).transforms := by
  simp [described, valid.base_top top, valid.path_top top, loads_top top]

theorem described_under (valid : f.WellFormed) (named : f.parent? id = some p)
    (later : f.loads id = false) :
    f.described id = (f.described p).followedBy (f.step id).transforms := by
  rw [described, described, valid.base_under named later, valid.path_under named,
    ← Recipe.followedBy_append]
  simp [later]

theorem described_loaded (valid : f.WellFormed) (named : f.parent? id = some p)
    (top : f.parent? p = none) (loaded : f.loads id = true) (coerces : f.step id = .parse fields) :
    f.described id = withCoercions (rootRecipe (f.step p)) fields := by
  have file := ((loads_iff named).mp loaded).2.2
  have silent : (f.step p).transforms = [] := by
    cases source : f.step p with
    | source _ => rfl
    | _ => rw [source] at file; cases file
  rw [described, valid.base_loaded named top loaded coerces, valid.path_under named,
    valid.path_top top]
  simp [loads_top top, loaded, silent]

theorem bearers_top (valid : f.WellFormed) (top : f.parent? id = none) :
    f.bearers id = [id].filter f.bears := by
  simp [bearers, valid.path_top top, loads_top top]

theorem bearers_under (valid : f.WellFormed) (named : f.parent? id = some p)
    (later : f.loads id = false) : f.bearers id = f.bearers p ++ [id].filter f.bears := by
  simp [bearers, valid.path_under named, later, List.filter_append]

theorem bearers_loaded (valid : f.WellFormed) (named : f.parent? id = some p)
    (loaded : f.loads id = true) : f.bearers id = f.bearers p := by
  simp [bearers, valid.path_under named, loaded, List.filter_append]

-- What is loaded on the way stands right below the top; everything else is done in order.
theorem described_cases (valid : f.WellFormed)
    (sources : ∀ x, (f.step x).isSource = true → f.parent? x = none) (id : NodeId) :
    (f.path id).any f.loads = false ∧ f.described id =
        (rootRecipe (f.step (f.top id))).followedBy ((f.route id).flatMap Step.transforms) ∨
      (f.path id).any f.loads = true ∧ ∃ fields rest,
        f.route id = f.step (f.top id) :: .parse fields :: rest ∧ f.described id =
          (withCoercions (rootRecipe (f.step (f.top id))) fields).followedBy
            (rest.flatMap Step.transforms) := by
  induction valid.ends id with
  | @top id top =>
    left
    simp [valid.path_top top, loads_top top, valid.described_top top, valid.top_top top,
      valid.route_top top]
  | @under id p named _ ih =>
    rw [valid.path_under named, valid.top_under named, valid.route_under named]
    by_cases loaded : f.loads id = true
    · right
      obtain ⟨parse, _, file⟩ := (loads_iff named).mp loaded
      have top := sources p (Step.isSource_of_isFile file)
      cases coerces : f.step id with
      | parse fields =>
        refine ⟨by simp [loaded], fields, [], ?_, ?_⟩
        · rw [valid.route_top top, valid.top_top top]
          rfl
        · rw [valid.described_loaded named top loaded coerces, valid.top_top top]
          simp
      | _ =>
        rw [coerces] at parse
        cases parse
    · have later := Bool.eq_false_iff.mpr loaded
      rw [valid.described_under named later]
      rcases ih with ⟨none, described⟩ | ⟨some, fields, rest, route, described⟩
      · left
        refine ⟨by simp [none, later], ?_⟩
        rw [described, ← Recipe.followedBy_append]
        simp
      · right
        refine ⟨by simp [some], fields, rest ++ [f.step id], by simp [route], ?_⟩
        rw [described, ← Recipe.followedBy_append]
        simp

end WellFormed
end Forest
end Viewflow.Flow
