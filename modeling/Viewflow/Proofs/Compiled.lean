import Viewflow.Proofs.Emission.Assembled
import Viewflow.Proofs.Views.Scene
import Viewflow.Proofs.Views.Work

namespace Viewflow
open Viewflow.Flow (Coercion Demand Forest Lowering NamedStep NodeId Outputs Pipeline Step)
open Output (Chain Dataset Mark Recipe Signal flattened)

variable {config : Config} {registry : Registry} {index : Index} {spec : Spec} {forest : Forest}
  {demand : Demand} {outputs : List Outputs} {c : Compiled}

namespace Compilation

-- The steps that were laid down for a view, behind the data that the first view with its key brought in.
def Follows (config : Config) (registry : Registry) (index : Index) (spec : Spec) (v : UnitView)
    (loaded : Bool) (r : Recipe) : Prop :=
  ∃ first own encoded, ∃ fields : Keyed String Coercion,
    Lowering.firstWith spec.views v.data.key = some first ∧
    v.transform.mapM (Pipeline.transformStep registry index) = .ok own ∧
    Pipeline.eachEncodingSteps v.encoding.values = .ok encoded ∧
    fields.entries.Perm (Pipeline.coercions v).entries ∧
    (loaded = true → config.optimize = false → own = []) ∧
    r = Flow.viewRecipe loaded config.optimize first.data fields own (Pipeline.later index v encoded)

theorem arranged_spec (done : arranged config registry index spec = .ok (forest, demand, outputs)) :
    forest.WellFormed ∧ (∀ x, (forest.step x).isSource = true → forest.parent? x = none) ∧
      (∀ r ∈ forest.roots, ∃ w ∈ spec.views, forest.step r = .source w.data) ∧
      List.Forall₂ (fun v o => forest.Delivers demand o.main ∧
        Follows config registry index spec v ((forest.path o.main).any forest.loads)
          (forest.described o.main)) spec.views outputs := by
  obtain ⟨⟨l, outputs'⟩, laid, done⟩ := bind_eq_ok done
  obtain ⟨l', asked, done⟩ := bind_eq_ok done
  obtain ⟨g, improved, done⟩ := bind_eq_ok done
  cases done
  obtain ⟨strands, roots, every⟩ := Lowering.lowered_spec laid asked
  unfold optimized at improved
  cases on : config.optimize with
  | false =>
    simp only [on, Bool.false_eq_true, if_false] at improved
    cases improved
    refine ⟨strands.valid, strands.sources, roots, every.imp ?_⟩
    rintro v o ⟨p, found, laid, delivers⟩
    obtain ⟨first, brought, route⟩ := laid.route
    obtain ⟨own, encoded, made, encodes, ordered⟩ := Pipeline.steps_spec found first.data
    obtain ⟨bare, described⟩ :=
      strands.valid.described_laid strands.sources made encodes (route.trans ordered)
    refine ⟨delivers, first, own, encoded, Pipeline.coercions v, brought, made, encodes, .refl _,
      fun loads _ => bare loads, ?_⟩
    rw [on]
    exact described
  | true =>
    simp only [on, if_true] at improved
    obtain ⟨h, tally, settles, settled, parses, kept⟩ := strands.optimize config.maxRounds
    obtain ⟨h', tally', settles', _, others⟩ := strands.valid.optimize l'.demand config.maxRounds
    rw [settles] at settles'
    cases settles'
    rw [settles] at improved
    cases improved
    refine ⟨settled.valid, settled.sources, ?_, every.imp ?_⟩
    · intro r root
      rw [kept.step]
      exact roots r (kept.roots root)
    · rintro v o ⟨p, found, laid, delivers⟩
      obtain ⟨first, brought, route⟩ := laid.route
      obtain ⟨own, encoded, made, encodes, ordered⟩ := Pipeline.steps_spec found first.data
      have top : l'.forest.step (l'.forest.top o.main) = .source first.data := by
        have head := strands.valid.head?_route o.main
        rw [route] at head
        exact (Option.some.inj head).symm
      have delivers' := parses.delivers _ delivers
      have top' : h.step (h.top o.main) = .source first.data := by
        rw [(parses.source _ delivers (top ▸ rfl)).1, kept.step, top]
      obtain ⟨fields, perm, described⟩ := settled.described_climbed delivers'.attached top' made
        encodes (route.trans ordered) (parses.alike _ delivers) (others.alike _ delivers)
      refine ⟨delivers', first, own, encoded, fields, brought, made, encodes, perm, ?_⟩
      rw [on]
      exact ⟨fun _ off => Bool.noConfusion off, described⟩

variable {us : List Unit} {v : UnitView}

theorem units_spec (done : units spec registry config.selection = .ok us) :
    us.map (·.context) = spec.contexts := by
  have made := forall₂_of_mapM done
  clear done
  generalize spec.contexts = contexts at made
  induction made with
  | nil => rfl
  | cons first _ ih =>
    obtain ⟨selections, _, done⟩ := bind_eq_ok first
    cases done
    rw [List.map_cons, ih]

theorem compile_parts (done : compile config registry spec = .ok c) :
    ∃ us forest demand outputs scene, units spec registry config.selection = .ok us ∧
      arranged config registry (indexOf us) spec = .ok (forest, demand, outputs) ∧
      addUnits registry (forest.assemble demand).1 ⟨(forest.assemble demand).2, [], [], []⟩
        (us.zip outputs) = .ok scene ∧ c.data = scene.data ∧ c.marks = scene.marks ∧
      c.signals = scene.topSignals ++ scene.unitSignals ∧
      scaleDomains registry (indexOf us) us = .ok c.scaleDomains := by
  obtain ⟨us, made, done⟩ := bind_eq_ok done
  obtain ⟨⟨forest, demand, outputs⟩, placed, done⟩ := bind_eq_ok done
  obtain ⟨scene, shown, done⟩ := bind_eq_ok done
  obtain ⟨predicates, _, done⟩ := bind_eq_ok done
  obtain ⟨domains, found, done⟩ := bind_eq_ok done
  cases done
  exact ⟨us, forest, demand, outputs, scene, made, placed, shown, rfl, rfl, rfl, found⟩

theorem compile_predicates (done : compile config registry spec = .ok c)
    (made : units spec registry config.selection = .ok us) :
    predicates registry (indexOf us) = .ok c.predicates := by
  obtain ⟨us', made', done⟩ := bind_eq_ok done
  obtain ⟨⟨forest, demand, outputs⟩, _, done⟩ := bind_eq_ok done
  obtain ⟨scene, _, done⟩ := bind_eq_ok done
  obtain ⟨predicates, tested, done⟩ := bind_eq_ok done
  obtain ⟨domains, _, done⟩ := bind_eq_ok done
  cases done
  rw [made] at made'
  cases made'
  exact tested

end Compilation

def plotted (name : String) (transform : List TransformDef) : UnitView :=
  { name, data := .remote "cars.csv" none, transform, selection := .empty, mark := "point"
    encoding := Keyed.empty.put .x ⟨some "miles", .quantitative, none, false, none, none⟩ }

def plottedTwice : Spec :=
  ⟨[plotted "far" [.calculate "datum.miles * 2" "twice"], plotted "near" []]⟩

namespace Compilation

variable {us : List Unit}

end Compilation

end Viewflow
