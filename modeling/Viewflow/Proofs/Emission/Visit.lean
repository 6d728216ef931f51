import Viewflow.Proofs.Emission.Stretch
import Viewflow.Proofs.Forest.Descent

namespace Viewflow.Flow.Forest
open Output (Dataset Recipe Reads)

variable {f : Forest} {demand : Demand} {id p : NodeId} {e e' e'' : Emission}
  {pending : Recipe} {nodes nodes' ids ids' : List NodeId} {underSource : Bool}

def wanted (f : Forest) (demand : Demand) (id : NodeId) : Bool :=
  match f.step id with
  | .output b => demand.isRequired b.name
  | _ => false

def behind (f : Forest) (r : Recipe) (id : NodeId) : Recipe :=
  if f.loads id then loadedWith r (f.step id) else r.followedBy (f.step id).transforms

def bearersBehind (f : Forest) (owners : List NodeId) (id : NodeId) : List NodeId :=
  if f.loads id then owners else owners ++ [id].filter f.bears

def Absorbs (f : Forest) (demand : Demand) (id : NodeId) (pending : Recipe) (nodes : List NodeId)
    (e : Emission) (result : Recipe × Emission) : Prop :=
  ∃ nodes' log bound, Adds f e result.2 log bound ∧ Holds f result.1 nodes' ∧
    (log.flatMap (·.nodes) ++ nodes').Sublist (nodes ++ [id]) ∧
    bound.map Prod.fst = [id].filter (f.wanted demand) ∧
    ∀ datasets owner, Filed datasets owner log → (Dataset.names datasets).Nodup →
      ∀ r owners, Stands datasets owner pending nodes r owners →
        Stands datasets owner result.1 nodes' (f.behind r id) (f.bearersBehind owners id) ∧
        ∀ x name, (x, name) ∈ bound → x = id ∧
          Reads datasets owner name (f.behind r id) (f.bearersBehind owners id)

theorem absorbs_plain (holds : Holds f pending nodes) (e : Emission) (late : f.loads id = false)
    (unwanted : f.wanted demand id = false) :
    Absorbs f demand id pending nodes e (pending.followedBy (f.step id).transforms, e) := by
  refine ⟨nodes ++ [id].filter f.bears, [], [], .refl f e, holds.followedBy id, ?_, ?_, ?_⟩
  · exact (List.Sublist.refl nodes).append List.filter_sublist
  · simp [unwanted]
  · intro datasets owner _ _ r owners stands
    refine ⟨?_, fun x name member => nomatch member⟩
    unfold behind
    unfold bearersBehind
    rw [if_neg (by simp [late]), if_neg (by simp [late])]
    exact stands.followedBy _ _

theorem absorbs_silent (holds : Holds f pending nodes) (e : Emission) (late : f.loads id = false)
    (unwanted : f.wanted demand id = false) (silent : (f.step id).transforms = []) :
    Absorbs f demand id pending nodes e (pending, e) := by
  have plain : Absorbs f demand id pending nodes e (pending.followedBy (f.step id).transforms, e) :=
    absorbs_plain holds e late unwanted
  rwa [silent, Recipe.followedBy_nil] at plain

theorem absorbs_loaded (holds : Holds f pending nodes) (e : Emission) (loaded : f.loads id = true)
    {fields : Keyed String Coercion} (coerces : f.step id = .parse fields)
    (base : pending.origin.source? = none) :
    Absorbs f demand id pending nodes e (withCoercions pending fields, e) := by
  refine ⟨nodes, [], [], .refl f e, ⟨holds.transforms, holds.bears⟩, by simp, ?_, ?_⟩
  · simp [wanted, coerces]
  · intro datasets owner _ _ r owners stands
    refine ⟨?_, fun x name member => nomatch member⟩
    unfold behind
    unfold bearersBehind
    rw [if_pos loaded, if_pos loaded, coerces]
    exact stands.withCoercions base fields

theorem absorbs_bound (holds : Holds f pending nodes) (e : Emission) {b : Boundary}
    (output : f.step id = .output b) (required : demand.isRequired b.name = true) :
    Absorbs f demand id pending nodes e
      (absorbStep demand id underSource pending e (f.step id)) := by
  have late : f.loads id = false := loads_of_not_parse (by rw [output]; rfl)
  obtain ⟨name, e', log, written, adds, within, reads⟩ := materialize_spec e (some b.name) holds
  have result : absorbStep demand id underSource pending e (f.step id) =
      (.derived name, { e' with bound := e'.bound ++ [(id, name)] }) := by
    rw [output, absorbStep, if_pos required, written]
  rw [result]
  refine ⟨[], log, [(id, name)], ⟨adds.datasets, ?_, adds.holds, adds.distinct⟩, .nil rfl, ?_, ?_,
    ?_⟩
  · change e'.bound ++ [(id, name)] = _
    rw [adds.bound, List.append_nil]
  · rw [List.append_nil]
    exact within.trans (List.sublist_append_left nodes [id])
  · simp [wanted, output, required]
  · intro datasets owner filed distinct r owners stands
    have silent : f.bears id = false := by simp [Forest.bears, output, Step.transforms]
    have same : f.behind r id = r := by
      unfold behind
      rw [if_neg (by simp [late]), output]
      exact Recipe.followedBy_nil r
    have alike : f.bearersBehind owners id = owners := by
      simp [bearersBehind, late, silent]
    have read := reads datasets owner filed distinct r owners stands
    rw [same, alike]
    refine ⟨.of_reads read, ?_⟩
    intro x text member
    cases List.mem_singleton.mp member
    exact ⟨rfl, read⟩

theorem absorbStep_spec (demand : Demand) (holds : Holds f pending nodes) (e : Emission)
    (folds : (f.step id).isParse = true → foldsIntoFormat underSource pending = f.loads id) :
    Absorbs f demand id pending nodes e
      (absorbStep demand id underSource pending e (f.step id)) := by
  have late : (f.step id).isParse = false → f.loads id = false := loads_of_not_parse
  have quiet : (f.step id).isOutput = false → f.wanted demand id = false := by
    intro silent
    unfold wanted
    split
    · next output => rw [output] at silent; cases silent
    · rfl
  cases step : f.step id with
  | output b =>
    by_cases required : demand.isRequired b.name = true
    · rw [← step]
      exact absorbs_bound holds e step required
    · rw [absorbStep, if_neg required]
      exact absorbs_silent holds e (late (by rw [step]; rfl)) (by simpa [wanted, step] using required)
        (by rw [step]; rfl)
  | source data =>
    exact absorbs_silent holds e (late (by rw [step]; rfl)) (quiet (by rw [step]; rfl))
      (by rw [step]; rfl)
  | parse fields =>
    have decided := folds (by rw [step]; rfl)
    rw [absorbStep]
    cases loaded : f.loads id with
    | true =>
      rw [loaded] at decided
      rw [if_pos decided]
      unfold foldsIntoFormat at decided
      rw [Bool.and_eq_true, Bool.and_eq_true, Option.isNone_iff_eq_none] at decided
      exact absorbs_loaded holds e loaded step decided.1.2
    | false =>
      rw [loaded] at decided
      rw [if_neg (by simp [decided]), ← step]
      exact absorbs_plain holds e loaded (quiet (by rw [step]; rfl))
  | _ =>
    simp only [absorbStep]
    rw [← step]
    exact absorbs_plain holds e (late (by rw [step]; rfl)) (quiet (by rw [step]; rfl))

def SourcesOnTop (f : Forest) : Prop :=
  ∀ id, f.isAttached id = true → (f.step id).isSource = true → f.parent? id = none

def before (f : Forest) (id : NodeId) : Recipe :=
  match f.parent? id with
  | some p => f.described p
  | none => rootRecipe (f.step id)

def bearersBefore (f : Forest) (id : NodeId) : List NodeId :=
  match f.parent? id with
  | some p => f.bearers p
  | none => []

theorem before_under (named : f.parent? id = some p) : f.before id = f.described p := by
  unfold before
  rw [named]

theorem bearersBefore_under (named : f.parent? id = some p) :
    f.bearersBefore id = f.bearers p := by
  unfold bearersBefore
  rw [named]

namespace WellFormed

theorem described_eq_behind (valid : f.WellFormed) (tops : f.SourcesOnTop)
    (attached : f.isAttached id = true) : f.described id = f.behind (f.before id) id := by
  cases named : f.parent? id with
  | none =>
    rw [valid.described_top named, behind, if_neg (by simp [loads_top named]), before, named]
  | some p =>
    rw [before_under named, behind]
    cases loaded : f.loads id with
    | false => exact valid.described_under named loaded
    | true =>
      obtain ⟨parse, _, file⟩ := (loads_iff named).mp loaded
      have top := tops p ((valid.attached_iff_parent named).mp attached)
        (Step.isSource_of_isFile file)
      cases coerces : f.step id with
      | parse fields =>
        have silent : (f.step p).transforms = [] := by
          cases source : f.step p with
          | source _ => rfl
          | _ => rw [source] at file; cases file
        rw [valid.described_loaded named top loaded coerces, valid.described_top top, silent,
          Recipe.followedBy_nil, if_pos rfl]
        rfl
      | _ => rw [coerces] at parse; cases parse

theorem bearers_eq_behind (valid : f.WellFormed) :
    f.bearers id = f.bearersBehind (f.bearersBefore id) id := by
  cases named : f.parent? id with
  | none =>
    rw [valid.bearers_top named, bearersBehind, if_neg (by simp [loads_top named]), bearersBefore,
      named]
    rfl
  | some p =>
    rw [bearersBefore_under named, bearersBehind]
    cases loaded : f.loads id with
    | false => exact valid.bearers_under named loaded
    | true => exact valid.bearers_loaded named loaded

end WellFormed

-- What the visit of some nodes adds, given what is known of the datasets in the end.
def Visits (f : Forest) (demand : Demand)
    (given : List Dataset → (String → List NodeId) → Prop) (e e' : Emission)
    (nodes ids : List NodeId) : Prop :=
  ∃ log bound, Adds f e e' log bound ∧ (log.flatMap (·.nodes)).Sublist (nodes ++ ids) ∧
    bound.map Prod.fst = ids.filter (f.wanted demand) ∧
    ∀ datasets owner, Filed datasets owner log → (Dataset.names datasets).Nodup →
      given datasets owner → ∀ x name, (x, name) ∈ bound →
        Reads datasets owner name (f.described x) (f.bearers x)

namespace Visits

variable {given given' : List Dataset → (String → List NodeId) → Prop}

theorem refl (e : Emission) (nodes : List NodeId) : Visits f demand given e e nodes [] :=
  ⟨[], [], .refl f e, List.nil_sublist _, rfl, fun _ _ _ _ _ _ _ member => nomatch member⟩

theorem seq (one : Visits f demand given e e' nodes ids)
    (two : Visits f demand given e' e'' [] ids') :
    Visits f demand given e e'' nodes (ids ++ ids') := by
  obtain ⟨log, bound, adds, within, wanted, reads⟩ := one
  obtain ⟨log', bound', adds', within', wanted', reads'⟩ := two
  refine ⟨log ++ log', bound ++ bound', adds.seq adds', ?_, ?_, ?_⟩
  · rw [List.flatMap_append, ← List.append_assoc]
    exact within.append within'
  · rw [List.map_append, List.filter_append, wanted, wanted']
  · intro datasets owner filed distinct known x name member
    obtain ⟨filed, filed'⟩ := filed.append
    rcases List.mem_append.mp member with first | second
    · exact reads datasets owner filed distinct known x name first
    · exact reads' datasets owner filed' distinct known x name second

theorem weaken (visits : Visits f demand given e e' nodes ids)
    (implies : ∀ datasets owner, given' datasets owner → given datasets owner) :
    Visits f demand given' e e' nodes ids := by
  obtain ⟨log, bound, adds, within, wanted, reads⟩ := visits
  exact ⟨log, bound, adds, within, wanted, fun datasets owner filed distinct known =>
    reads datasets owner filed distinct (implies datasets owner known)⟩

end Visits

end Viewflow.Flow.Forest
