import Viewflow.Proofs.Emission.Described
import Viewflow.Proofs.Passes.Climb

namespace Viewflow.Flow
open Output (Recipe Transform)

variable {f g : Forest} {demand : Demand} {id : NodeId} {registry : Registry} {index : Index}
  {v : UnitView} {p : Pipeline} {data : DataRef} {own encoded : List NamedStep}
  {as : List Step}

def transformsOf (steps : List NamedStep) : List Transform := steps.flatMap fun s => s.2.transforms

def viewRecipe (loaded first : Bool) (data : DataRef) (fields : Keyed String Coercion)
    (own later : List NamedStep) : Recipe :=
  if loaded then
    (withCoercions (sourceRecipe data) fields).followedBy (transformsOf own ++ transformsOf later)
  else
    let coerced := Step.coercionFormulas fields
    (sourceRecipe data).followedBy
      (if first then coerced ++ transformsOf own ++ transformsOf later
        else transformsOf own ++ coerced ++ transformsOf later)

namespace Pipeline

def later (index : Index) (v : UnitView) (encoded : List NamedStep) : List NamedStep :=
  identifierSteps index v ++ encoded ++ aggregateSteps v

theorem transforms_own (data : DataRef) (own : List NamedStep) :
    (Step.source data :: own.map Prod.snd).flatMap Step.transforms = transformsOf own := by
  simp [transformsOf, Step.transforms, List.flatMap_map]

theorem transforms_after (index : Index) (v : UnitView) (encoded : List NamedStep) :
    (after index v encoded).flatMap Step.transforms = transformsOf (later index v encoded) := by
  simp [after, later, rawStep, mainStep, transformsOf, Step.transforms, List.flatMap_map]

theorem transforms_coercionSteps (v : UnitView) :
    ((coercionSteps v).map Prod.snd).flatMap Step.transforms =
      Step.coercionFormulas (coercions v) := by
  unfold coercionSteps
  simp only
  split
  · next none =>
    unfold Keyed.isEmpty at none
    rw [List.isEmpty_iff] at none
    simp [Step.coercionFormulas, none]
  · simp [Step.transforms]

end Pipeline

theorem Pipeline.coercionSteps_cases (v : UnitView) :
    (coercions v).entries = [] ∧ (coercionSteps v).map Prod.snd = [] ∨
      (coercionSteps v).map Prod.snd = [.parse (coercions v)] := by
  unfold coercionSteps
  simp only
  split
  · next none => exact .inl ⟨List.isEmpty_iff.mp none, rfl⟩
  · exact .inr rfl

theorem filter_isParse_plain (plain : ∀ s ∈ as, s.isParse = false) : as.filter Step.isParse = [] :=
  List.filter_eq_nil_iff.mpr fun s member => by simp [plain s member]

theorem filter_notParse_plain (plain : ∀ s ∈ as, s.isParse = false) :
    as.filter Forest.notParse = as :=
  List.filter_eq_self.mpr fun s member => by simp [Forest.notParse, plain s member]

namespace Pipeline

variable (made : v.transform.mapM (transformStep registry index) = .ok own)
  (encodes : eachEncodingSteps v.encoding.values = .ok encoded)
include made encodes

theorem filter_isParse : ((Step.source data :: own.map Prod.snd) ++
    ((coercionSteps v).map Prod.snd ++ after index v encoded)).filter Step.isParse =
      (coercionSteps v).map Prod.snd := by
  rw [List.filter_append, List.filter_append, filter_isParse_plain (before_not_parse data made),
    filter_isParse_plain (after_not_parse index encodes)]
  rcases coercionSteps_cases v with ⟨_, bare⟩ | coerces
  · simp [bare]
  · simp [coerces, Step.isParse]

theorem filter_notParse : ((Step.source data :: own.map Prod.snd) ++
    ((coercionSteps v).map Prod.snd ++ after index v encoded)).filter Forest.notParse =
      (.source data :: own.map Prod.snd) ++ after index v encoded := by
  rw [List.filter_append, List.filter_append, filter_notParse_plain (before_not_parse data made),
    filter_notParse_plain (after_not_parse index encodes)]
  rcases coercionSteps_cases v with ⟨_, bare⟩ | coerces
  · simp [bare]
  · simp [coerces, Forest.notParse, Step.isParse]

theorem transforms_alike (alike : Step.Alike ((.source data :: own.map Prod.snd) ++
    after index v encoded) (.source data :: as)) :
    as.flatMap Step.transforms = transformsOf own ++ transformsOf (later index v encoded) := by
  have same := alike.transforms fun s member => (List.mem_append.mp member).elim
    (before_not_parse data made s) (after_not_parse index encodes s)
  rw [List.flatMap_append, transforms_own, transforms_after] at same
  exact same.symm

end Pipeline

namespace Forest

theorem WellFormed.head?_route (valid : f.WellFormed) (id : NodeId) :
    (f.route id).head? = some (f.step (f.top id)) := by
  induction valid.ends id with
  | top top =>
    rw [valid.route_top top, valid.top_top top]
    rfl
  | under named _ ih =>
    rw [valid.route_under named, valid.top_under named, List.head?_append, ih]
    rfl

-- A strand with its coercions in their first place. They are done while a file loads only if no transform of
-- the view comes before them.
theorem WellFormed.described_laid (valid : f.WellFormed)
    (sources : ∀ x, (f.step x).isSource = true → f.parent? x = none)
    (made : v.transform.mapM (Pipeline.transformStep registry index) = .ok own)
    (encodes : Pipeline.eachEncodingSteps v.encoding.values = .ok encoded)
    (route : f.route id = (.source data :: own.map Prod.snd) ++
      ((Pipeline.coercionSteps v).map Prod.snd ++ Pipeline.after index v encoded)) :
    ((f.path id).any f.loads = true → own = []) ∧
      f.described id = viewRecipe ((f.path id).any f.loads) false data (Pipeline.coercions v) own
        (Pipeline.later index v encoded) := by
  have top : f.step (f.top id) = .source data := by
    have head := valid.head?_route id
    rw [route] at head
    exact (Option.some.inj head).symm
  rcases valid.described_cases sources id with ⟨none, described⟩ | ⟨some, fields, rest, split, described⟩
  · refine ⟨fun loads => by simp [none] at loads, ?_⟩
    rw [described, none, top, route, List.flatMap_append, List.flatMap_append,
      Pipeline.transforms_own, Pipeline.transforms_coercionSteps, Pipeline.transforms_after]
    simp [viewRecipe, rootRecipe]
  · rw [route, top, List.cons_append, List.cons.injEq] at split
    have early := Pipeline.before_not_parse data made
    have late := Pipeline.after_not_parse index encodes
    cases own with
    | cons first _ =>
      rw [List.map_cons, List.cons_append, List.cons.injEq] at split
      have plain := early first.2 (by simp)
      rw [split.2.1] at plain
      cases plain
    | nil =>
      have below := split.2
      rw [List.map_nil, List.nil_append] at below
      rcases Pipeline.coercionSteps_cases v with ⟨_, bare⟩ | coerces
      · rw [bare, List.nil_append] at below
        have plain := late (.parse fields) (below ▸ List.mem_cons_self ..)
        cases plain
      · rw [coerces, List.singleton_append, List.cons.injEq, Step.parse.injEq] at below
        obtain ⟨rfl, rfl⟩ := below
        refine ⟨fun _ => rfl, ?_⟩
        rw [described, some, top, Pipeline.transforms_after]
        simp [viewRecipe, rootRecipe, transformsOf]

-- Where coercions have climbed, one at most stands on the way down, right below the source.
theorem Settled.route_cases (settled : f.Settled) (attached : f.isAttached id = true)
    (top : (f.step (f.top id)).isParse = false) :
    ∃ rest, (∀ s ∈ rest, s.isParse = false) ∧ (f.route id = f.step (f.top id) :: rest ∨
      ∃ fields, f.route id = f.step (f.top id) :: .parse fields :: rest) := by
  have valid := settled.valid
  induction valid.ends id with
  | top orphan => exact ⟨[], by simp, .inl (by rw [valid.route_top orphan, valid.top_top orphan])⟩
  | @under id p named _ ih =>
    have attached' := (valid.attached_iff_parent named).mp attached
    rw [valid.top_under named] at top ⊢
    rw [valid.route_under named]
    cases coerces : (f.step id).isParse with
    | true =>
      have source := settled.grounded id p attached coerces named
      have orphan := settled.sources p source
      cases step : f.step id with
      | parse fields =>
        refine ⟨[], by simp, .inr ⟨fields, ?_⟩⟩
        rw [valid.route_top orphan, valid.top_top orphan]
        rfl
      | _ =>
        rw [step] at coerces
        cases coerces
    | false =>
      obtain ⟨rest, plain, route⟩ := ih attached' top
      refine ⟨rest ++ [f.step id], ?_, ?_⟩
      · intro s member
        rcases List.mem_append.mp member with before | last
        · exact plain s before
        · rw [List.mem_singleton.mp last, coerces]
      · rcases route with route | ⟨fields, route⟩
        · exact .inl (by simp [route])
        · exact .inr ⟨fields, by simp [route]⟩

theorem Settled.described_climbed (settled : f.Settled) (attached : f.isAttached id = true)
    (top : f.step (f.top id) = .source data)
    (made : v.transform.mapM (Pipeline.transformStep registry index) = .ok own)
    (encodes : Pipeline.eachEncodingSteps v.encoding.values = .ok encoded)
    (laid : as = (.source data :: own.map Prod.snd) ++
      ((Pipeline.coercionSteps v).map Prod.snd ++ Pipeline.after index v encoded))
    (parses : Step.Alike (as.filter Step.isParse) ((f.route id).filter Step.isParse))
    (others : Step.Alike (as.filter notParse) ((f.route id).filter notParse)) :
    ∃ fields : Keyed String Coercion, fields.entries.Perm (Pipeline.coercions v).entries ∧
      f.described id = viewRecipe ((f.path id).any f.loads) true data fields own
        (Pipeline.later index v encoded) := by
  obtain ⟨steps, plain, route⟩ := settled.route_cases attached (top ▸ rfl)
  have described := settled.valid.described_cases settled.sources id
  rw [laid, Pipeline.filter_isParse made encodes] at parses
  rw [laid, Pipeline.filter_notParse made encodes] at others
  rw [top] at route described
  rcases route with route | ⟨fields, route⟩
  · rw [route, List.filter_cons_of_neg (by simp [Step.isParse]), filter_isParse_plain plain] at parses
    rw [route, List.filter_cons_of_pos (by simp [notParse, Step.isParse]),
      filter_notParse_plain plain] at others
    have work := Pipeline.transforms_alike made encodes others
    rcases Pipeline.coercionSteps_cases v with ⟨empty, _⟩ | coerces
    · refine ⟨Pipeline.coercions v, .refl _, ?_⟩
      rcases described with ⟨unloaded, described⟩ | ⟨_, fields, rest, split, _⟩
      · rw [described, unloaded, route, List.flatMap_cons, work]
        simp [viewRecipe, rootRecipe, Step.coercionFormulas, empty, Step.transforms]
      · rw [route, List.cons.injEq] at split
        have wrong := plain (.parse fields) (split.2 ▸ List.mem_cons_self ..)
        cases wrong
    · rw [coerces] at parses
      cases parses
  · rw [route, List.filter_cons_of_neg (by simp [Step.isParse]),
      List.filter_cons_of_pos (by simp [Step.isParse]), filter_isParse_plain plain] at parses
    rw [route, List.filter_cons_of_pos (by simp [notParse, Step.isParse]),
      List.filter_cons_of_neg (by simp [notParse, Step.isParse]), filter_notParse_plain plain]
      at others
    have work := Pipeline.transforms_alike made encodes others
    rcases Pipeline.coercionSteps_cases v with ⟨_, bare⟩ | coerces
    · rw [bare] at parses
      cases parses
    · rw [coerces] at parses
      obtain ⟨same, _⟩ := List.forall₂_cons.mp parses
      refine ⟨fields, (Keyed.agrees_iff.mp same).symm, ?_⟩
      rcases described with ⟨unloaded, described⟩ | ⟨loaded, fields', rest, split, described⟩
      · rw [described, unloaded, route, List.flatMap_cons, List.flatMap_cons, work]
        simp [viewRecipe, rootRecipe, Step.transforms]
      · rw [route, List.cons.injEq, List.cons.injEq, Step.parse.injEq] at split
        obtain ⟨_, rfl, rfl⟩ := split
        rw [described, loaded, work]
        simp [viewRecipe, rootRecipe]

end Forest
end Viewflow.Flow
