import Viewflow.Flow.Step
import Viewflow.Proofs.Forest.Splice
import Viewflow.Proofs.Steps.Sameness

namespace Viewflow.Flow

variable {up : NodeId → Option NodeId} {a b id p x kept twin : NodeId} {l : List NodeId}

theorem Line.spliced (named : up id = some p) (apart : p ≠ id) (line : Line up x l) :
    Line (bypass up id p) (if x = id then p else x) (l.filter (· ≠ id)) := by
  induction line with
  | @top x top =>
    have other : x ≠ id := by
      intro same
      rw [same, named] at top
      cases top
    simpa [other] using Line.top (bypass_top top)
  | @under x q l edge _ ih =>
    by_cases same : x = id
    · subst same
      rw [named] at edge
      cases edge
      simpa [apart] using ih
    · rw [if_neg same, List.filter_cons_of_pos (by simpa using same)]
      apply Line.under _ ih
      by_cases atNode : q = id
      · rw [if_pos atNode, bypass_of_under same (atNode ▸ edge)]
      · rw [if_neg atNode, bypass_of_apart same (by simp [edge, atNode]), edge]

theorem Line.exchanged (named : up id = some p) (apart : id ≠ p) (high : up p ≠ some id)
    (line : Line up x l) :
    ∃ m, Line (exchange up id p) (if x = id then p else x) m ∧
      m.filter (· ≠ id) = l.filter (· ≠ id) := by
  have atNode : exchange up id p id = up p := exchange_self
  have atParent : exchange up id p p = some id := exchange_parent apart
  induction line with
  | @top x top =>
    have other : x ≠ id := by
      intro same
      rw [same, named] at top
      cases top
    rw [if_neg other]
    by_cases same : x = p
    · subst same
      exact ⟨_, .under atParent (.top (atNode.trans top)), by simp [Ne.symm apart]⟩
    · exact ⟨_, .top (exchange_top other same top), rfl⟩
  | @under x q l edge _ ih =>
    obtain ⟨m, line', rest⟩ := ih
    by_cases same : x = id
    · subst same
      rw [named] at edge
      cases edge
      rw [if_neg (Ne.symm apart)] at line'
      refine ⟨m, by simpa using line', ?_⟩
      simpa using rest
    · rw [if_neg same]
      by_cases there : x = p
      · subst there
        have elsewhere : q ≠ id := by
          intro wrong
          exact high (wrong ▸ edge)
        rw [if_neg elsewhere] at line'
        refine ⟨_, .under atParent (.under (atNode.trans edge) line'), ?_⟩
        simpa [Ne.symm apart] using rest
      · refine ⟨x :: m, .under ?_ line', by simpa [same] using rest⟩
        by_cases under : q = id
        · rw [if_pos under, exchange_of_under same there (under ▸ edge)]
        · rw [if_neg under, exchange_of_apart same there (by simp [edge, under]), edge]

theorem Line.absorbed (one : up kept = some p) (two : up twin = some p) (apart : kept ≠ twin)
    (low : p ≠ twin) (line : Line up x l) :
    Line (bypass up twin kept) (if x = twin then kept else x)
      (l.map fun a => if a = twin then kept else a) := by
  induction line with
  | @top x top =>
    have other : x ≠ twin := by
      intro same
      rw [same, two] at top
      cases top
    simpa [other] using Line.top (bypass_top top)
  | @under x q l edge _ ih =>
    rw [List.map_cons]
    apply Line.under _ ih
    by_cases same : x = twin
    · subst same
      rw [two] at edge
      cases edge
      rw [if_pos rfl, if_neg low, bypass_of_apart apart (by simp [one, low]), one]
    · rw [if_neg same]
      by_cases under : q = twin
      · rw [if_pos under, bypass_of_under same (under ▸ edge)]
      · rw [if_neg under, bypass_of_apart same (by simp [edge, under]), edge]

namespace Forest

variable {f g h : Forest} {demand : Demand} {seen : Step → Bool}
  {down : NodeId → List NodeId} {roots : List NodeId}

def route (f : Forest) (id : NodeId) : List Step := ((f.lineage id).map f.step).reverse

structure Delivers (f : Forest) (demand : Demand) (id : NodeId) : Prop where
  wanted : ∃ b, f.step id = .output b ∧ demand.isRequired b.name = true
  placed : (f.parent? id).isSome = true
  attached : f.isAttached id = true

-- Whoever asked for an output finds it in the other forest, behind the same steps of the kind seen
-- and under the same source.
structure Carries (seen : Step → Bool) (demand : Demand) (f g : Forest) : Prop where
  delivers : ∀ id, f.Delivers demand id → g.Delivers demand id
  step : ∀ id, f.Delivers demand id → g.step id = f.step id
  source : ∀ id, f.Delivers demand id → (f.step (f.top id)).isSource = true →
    g.top id = f.top id ∧ g.step (f.top id) = f.step (f.top id)
  alike : ∀ id, f.Delivers demand id →
    Step.Alike ((f.route id).filter seen) ((g.route id).filter seen)

def everyStep (_ : Step) : Bool := true

theorem filter_everyStep (steps : List Step) : steps.filter everyStep = steps :=
  List.filter_eq_self.mpr fun _ _ => rfl

def notParse (s : Step) : Bool := !s.isParse

namespace Carries

theorem refl (seen : Step → Bool) (demand : Demand) (f : Forest) : Carries seen demand f f :=
  ⟨fun _ delivers => delivers, fun _ _ => rfl, fun _ _ _ => ⟨rfl, rfl⟩, fun _ _ => .refl _⟩

theorem trans (one : Carries seen demand f g) (two : Carries seen demand g h) :
    Carries seen demand f h where
  delivers id delivers := two.delivers id (one.delivers id delivers)
  step id delivers := (two.step id (one.delivers id delivers)).trans (one.step id delivers)
  source id delivers isSource := by
    obtain ⟨top, step⟩ := one.source id delivers isSource
    obtain ⟨top', step'⟩ := two.source id (one.delivers id delivers) (by rwa [top, step])
    rw [top] at top' step'
    exact ⟨top', step'.trans step⟩
  alike id delivers := (one.alike id delivers).trans (two.alike id (one.delivers id delivers))

theorem narrow (carries : Carries everyStep demand f g)
    (respects : ∀ a b, a.same b = true → seen a = seen b) : Carries seen demand f g where
  delivers := carries.delivers
  step := carries.step
  source := carries.source
  alike id delivers := by
    have whole := carries.alike id delivers
    rw [filter_everyStep, filter_everyStep] at whole
    exact whole.filter seen respects

end Carries

theorem Delivers.not_parse {id : NodeId} (delivers : f.Delivers demand id) :
    (f.step id).isParse = false := by
  obtain ⟨b, output, _⟩ := delivers.wanted
  rw [output]
  rfl

theorem Delivers.moved (delivers : f.Delivers demand id) (step : g.step id = f.step id)
    (placed : (g.parent? id).isSome = true) (attached : g.isAttached id = true) :
    g.Delivers demand id := by
  obtain ⟨b, output, required⟩ := delivers.wanted
  exact ⟨⟨b, step.trans output, required⟩, placed, attached⟩

theorem filter_route (f : Forest) (id : NodeId) (seen : Step → Bool) :
    (f.route id).filter seen =
      (((f.lineage id).filter fun a => seen (f.step a)).map f.step).reverse := by
  unfold route
  rw [List.filter_reverse, List.filter_map]
  rfl

theorem filter_route_skip (hidden : seen (f.step a) = false) (steps : g.step = f.step)
    (rest : (g.lineage id).filter (· ≠ a) = (f.lineage id).filter (· ≠ a)) :
    (g.route id).filter seen = (f.route id).filter seen := by
  have skip : ∀ l : List NodeId,
      l.filter (fun x => seen (f.step x)) =
        (l.filter (· ≠ a)).filter fun x => seen (f.step x) := by
    intro l
    rw [List.filter_filter]
    apply List.filter_congr
    intro x _
    by_cases there : x = a
    · simp [there, hidden]
    · simp [there]
  rw [filter_route, filter_route, steps, skip (g.lineage id), rest, ← skip]

namespace WellFormed

theorem lineage_of_line (valid : f.WellFormed) (line : Line f.parent? id l) : f.lineage id = l :=
  (valid.lineage_line id).unique line

theorem route_under (valid : f.WellFormed) (named : f.parent? id = some p) :
    f.route id = f.route p ++ [f.step id] := by
  simp [route, valid.lineage_under named]

theorem route_top (valid : f.WellFormed) (top : f.parent? id = none) : f.route id = [f.step id] := by
  simp [route, valid.lineage_top top]

theorem mem_route (valid : f.WellFormed) (above : Above f.parent? p id) : f.step p ∈ f.route id :=
  List.mem_reverse.mpr (List.mem_map.mpr ⟨p, valid.mem_lineage_iff.mpr above, rfl⟩)

-- What is no output anybody asked for hands what is below it to another node. Every other node keeps
-- its top.
theorem carries_bypassed (valid : f.WellFormed) (valid' : g.WellFormed)
    (below : f.parent? id ≠ none) (relinked : Relinked f g (bypass f.parent? id p) down f.roots)
    (spared : ¬ f.Delivers demand id)
    (above : ∀ x a, x ≠ id → a ≠ id → Above f.parent? a x → Above g.parent? a x)
    (alike : ∀ x, x ≠ id → Step.Alike ((f.route x).filter seen) ((g.route x).filter seen)) :
    Carries seen demand f g := by
  have other : ∀ x, f.Delivers demand x → x ≠ id := by
    intro x delivers same
    exact spared (same ▸ delivers)
  have top : ∀ x, x ≠ id → g.top x = f.top x := by
    intro x different
    obtain ⟨higher, orphan⟩ := valid.top_spec x
    have apart : f.top x ≠ id := fun same => below (same ▸ orphan)
    apply valid'.top_eq (above x _ different apart higher)
    rw [relinked.parent, bypass_top orphan]
  refine ⟨?_, ?_, ?_, ?_⟩
  · intro x delivers
    apply delivers.moved (relinked.step x)
    · rw [relinked.parent, bypass_isSome (other x delivers)]
      exact delivers.placed
    · have attached := delivers.attached
      unfold isAttached at attached ⊢
      rw [top x (other x delivers), relinked.roots]
      exact attached
  · intro x _
    exact relinked.step x
  · intro x delivers _
    exact ⟨top x (other x delivers), relinked.step _⟩
  · intro x delivers
    exact alike x (other x delivers)

theorem lineage_removed (valid : f.WellFormed) (valid' : g.WellFormed)
    (named : f.parent? id = some p) (relinked : Relinked f g (bypass f.parent? id p) down roots)
    (other : x ≠ id) : g.lineage x = (f.lineage x).filter (· ≠ id) := by
  have line := (valid.lineage_line x).spliced named (valid.ne_parent named).symm
  rw [if_neg other, ← relinked.parents] at line
  exact valid'.lineage_of_line line

theorem carries_removed (valid : f.WellFormed) (valid' : g.WellFormed)
    (named : f.parent? id = some p) (relinked : Relinked f g (bypass f.parent? id p) down f.roots)
    (spared : ¬ f.Delivers demand id) (hidden : f.children id = [] ∨ seen (f.step id) = false) :
    Carries seen demand f g := by
  refine valid.carries_bypassed valid' (by simp [named]) relinked spared ?_ ?_
  · intro x a other apart above
    have lineage := valid.lineage_removed valid' named relinked other
    rw [← valid'.mem_lineage_iff, lineage, List.mem_filter]
    exact ⟨valid.mem_lineage_iff.mpr above, decide_eq_true apart⟩
  · intro x other
    have lineage := valid.lineage_removed valid' named relinked other
    rcases hidden with childless | hidden
    · have absent : ∀ a ∈ f.lineage x, decide (a ≠ id) = true := by
        intro a member
        apply decide_eq_true
        rintro rfl
        exact other (valid.eq_of_above_childless childless (valid.mem_lineage_iff.mp member))
      rw [route, route, lineage, List.filter_eq_self.mpr absent, relinked.steps]
      exact .refl _
    · have rest : (g.lineage x).filter (· ≠ id) = (f.lineage x).filter (· ≠ id) := by
        rw [lineage, List.filter_filter]
        simp
      rw [filter_route_skip hidden relinked.steps rest]
      exact .refl _

end WellFormed
end Forest
end Viewflow.Flow
