import Viewflow.Flow.Lowering
import Viewflow.Proofs.Lowering.Pipelines

namespace Viewflow.Flow

variable {f g : Forest} {l l' l'' : Lowering} {head id id' : NodeId} {as bs : List Step}
  {v w : UnitView} {seen : List UnitView} {registry : Registry} {index : Index} {p : Pipeline}

def Boundary.IsRaw (b : Boundary) : Prop := ∃ unit, b.name = unit ++ "_raw"

namespace Lowering

structure Open (f : Forest) (head : NodeId) : Prop where
  strands : f.Strands Boundary.IsRaw
  known : head.index < f.size
  free : (f.step head).isSource = true ∨ f.children head = []
  silent : ∀ b, f.step head = .output b → b.IsRaw

structure Led (l l' : Lowering) (head id : NodeId) (steps : List Step) : Prop where
  strands : l'.forest.Strands Boundary.IsRaw
  grows : l.forest.Grows l'.forest
  known : id.index < l'.forest.size
  below : Above l'.forest.parent? head id
  route : l'.forest.route id = l.forest.route head ++ steps
  attached : l.forest.isAttached head = true → l'.forest.isAttached id = true
  roots : l'.forest.roots = l.forest.roots
  sources : l'.sources = l.sources
  quiet : ∀ name, l'.demand.isRequired name = l.demand.isRequired name

theorem Led.refl (free : Open l.forest head) : Led l l head head [] :=
  ⟨free.strands, .refl _, free.known, .here, (List.append_nil _).symm, fun attached => attached, rfl,
    rfl, fun _ => rfl⟩

theorem Led.seq (one : Led l l' head id as) (two : Led l' l'' id id' bs) :
    Led l l'' head id' (as ++ bs) where
  strands := two.strands
  grows := one.grows.trans two.grows
  known := two.known
  below := (two.grows.above one.strands.valid two.strands.valid one.known one.below).trans two.below
  route := by rw [two.route, one.route, List.append_assoc]
  attached attached := two.attached (one.attached attached)
  roots := two.roots.trans one.roots
  sources := two.sources.trans one.sources
  quiet name := (two.quiet name).trans (one.quiet name)

theorem extend_led (ready : Open l.forest head) (step : NamedStep)
    (plain : step.2.isSource = false)
    (clear : ∀ upper ∈ l.forest.route head, upper.LetsPass step.2) :
    Led l (l.extend head step).1 head (l.extend head step).2 [step.2] ∧
      ((∀ b, step.2 = .output b → b.IsRaw) →
        Open (l.extend head step).1.forest (l.extend head step).2) := by
  have strands := ready.strands.addUnder ready.known ready.free ready.silent plain clear step.1
  have tip := Forest.tip_addUnder ready.strands.valid ready.known step.1 step.2
  have route := strands.valid.route_under tip.parent
  refine ⟨⟨strands, tip.grows, tip.known, .parent tip.parent, ?_, ?_, tip.roots, rfl,
    fun _ => rfl⟩,
    fun silent => ⟨strands, tip.known, .inr tip.childless, fun b output => silent b ?_⟩⟩
  · rw [tip.grows.route ready.strands.valid strands.valid ready.known, tip.step] at route
    exact route
  · intro attached
    have above := tip.grows.attached ready.strands.valid strands.valid ready.known attached
    exact (strands.valid.attached_iff_parent tip.parent).mpr above
  · exact tip.step.symm.trans output

theorem extendAll_led (ready : Open l.forest head) (steps : List NamedStep)
    (plain : ∀ s ∈ steps, s.2.isSource = false ∧ s.2.isOutput = false)
    (clear : (l.forest.route head ++ steps.map Prod.snd).Pairwise Step.LetsPass) :
    Led l (l.extendAll head steps).1 head (l.extendAll head steps).2 (steps.map Prod.snd) ∧
      Open (l.extendAll head steps).1.forest (l.extendAll head steps).2 := by
  induction steps generalizing l head with
  | nil => exact ⟨.refl ready, ready⟩
  | cons step steps ih =>
    obtain ⟨noSource, noOutput⟩ := plain step (List.mem_cons_self ..)
    have passes : ∀ upper ∈ l.forest.route head, upper.LetsPass step.2 := fun upper member =>
      (List.pairwise_append.mp clear).2.2 upper member step.2 (List.mem_cons_self ..)
    obtain ⟨led, next⟩ := extend_led ready step noSource passes
    have silent : ∀ b, step.2 = .output b → b.IsRaw := by
      intro b output
      rw [output] at noOutput
      cases noOutput
    have clear' : ((l.extend head step).1.forest.route (l.extend head step).2 ++
        steps.map Prod.snd).Pairwise Step.LetsPass := by
      rw [led.route, List.append_assoc]
      exact clear
    obtain ⟨rest, last⟩ := ih (next silent)
      (fun s member => plain s (List.mem_cons_of_mem _ member)) clear'
    exact ⟨led.seq rest, last⟩

theorem isRequired_register (d : Demand) (name other : String) :
    (d.register name).isRequired other = d.isRequired other := by
  unfold Demand.isRequired Demand.count Demand.register Keyed.putNew
  split
  · rfl
  · next absent =>
    rw [Keyed.find?_put]
    split
    · next same =>
      have missing : d.counts.find? name = none := by simpa [Keyed.contains] using absent
      rw [same, missing]
      rfl
    · rfl

theorem output_led (ready : Open l.forest head) (node name : String) (kind : OutputKind) :
    Led l (l.output head node name kind).1 head (l.output head node name kind).2
        [.output (.fresh name kind)] ∧
      ((∃ unit, name = unit ++ "_raw") →
        Open (l.output head node name kind).1.forest (l.output head node name kind).2) := by
  have passes : ∀ upper ∈ l.forest.route head, upper.LetsPass (.output (.fresh name kind)) :=
    fun _ _ => Step.letsPass_of_not_parse rfl
  have extended := extend_led (l := { l with demand := l.demand.register name }) ready
    (node, .output (.fresh name kind)) rfl passes
  refine ⟨⟨extended.1.strands, extended.1.grows, extended.1.known, extended.1.below, extended.1.route,
    extended.1.attached, extended.1.roots, extended.1.sources, fun other => isRequired_register _ _ _⟩, ?_⟩
  rintro ⟨unit, raw⟩
  apply extended.2
  intro b output
  cases output
  exact ⟨unit, raw⟩

def firstWith (views : List UnitView) (key : String) : Option UnitView :=
  views.find? fun w => w.data.key == key

theorem firstWith_append (seen later : List UnitView) (key : String) :
    firstWith (seen ++ later) key = (firstWith seen key).or (firstWith later key) :=
  List.find?_append

theorem firstWith_earlier {key : String} (first : firstWith seen key = some w)
    (later : List UnitView) : firstWith (seen ++ later) key = some w := by
  simp [firstWith_append, first]

theorem firstWith_new {key : String} (absent : firstWith seen key = none) (v : UnitView) :
    firstWith (seen ++ [v]) key = if v.data.key = key then some v else none := by
  rw [firstWith_append, absent]
  by_cases same : v.data.key = key <;> simp [firstWith, same]

-- The roots are known by the keys of the views so far.
structure Sourced (l : Lowering) (seen : List UnitView) : Prop where
  known : ∀ key id, l.sources.find? key = some id → id ∈ l.forest.roots ∧
    ∃ w, firstWith seen key = some w ∧ l.forest.step id = .source w.data
  absent : ∀ key, l.sources.find? key = none → firstWith seen key = none
  roots : ∀ r ∈ l.forest.roots, ∃ w ∈ seen, l.forest.step r = .source w.data

theorem Sourced.empty : Sourced .empty [] where
  known key id found := by cases found
  absent key _ := rfl
  roots r root := by cases root

theorem Sourced.grows (sourced : l.Sourced seen) (valid : l.forest.WellFormed)
    (grows : l.forest.Grows l'.forest) (same : l'.sources = l.sources)
    (roots : l'.forest.roots = l.forest.roots) : l'.Sourced seen where
  known key id found := by
    rw [same] at found
    obtain ⟨root, w, first, source⟩ := sourced.known key id found
    exact ⟨grows.roots root, w, first, (grows.step id (valid.rootKnown id root)).trans source⟩
  absent key missing := by
    rw [same] at missing
    exact sourced.absent key missing
  roots r root := by
    rw [roots] at root
    rw [grows.step r (valid.rootKnown r root)]
    exact sourced.roots r root

theorem Sourced.again (sourced : l.Sourced seen) (found : l.sources.find? v.data.key = some id) :
    l.Sourced (seen ++ [v]) where
  known key id' found' := by
    obtain ⟨root, w, first, source⟩ := sourced.known key id' found'
    exact ⟨root, w, firstWith_earlier first _, source⟩
  absent key missing := by
    have other : v.data.key ≠ key := by
      intro same
      rw [← same, found] at missing
      cases missing
    rw [firstWith_new (sourced.absent key missing), if_neg other]
  roots r root := by
    obtain ⟨w, listed, source⟩ := sourced.roots r root
    exact ⟨w, List.mem_append_left _ listed, source⟩

theorem Sourced.brought (sourced : l.Sourced seen) (valid : l.forest.WellFormed)
    (found : l.sources.find? v.data.key = none) :
    (⟨(l.forest.addRoot "source" (.source v.data)).1, l.demand,
      l.sources.put v.data.key l.forest.nextId⟩ : Lowering).Sourced (seen ++ [v]) := by
  have grows := Forest.grows_addRoot l.forest "source" (.source v.data)
  have new : (l.forest.addRoot "source" (.source v.data)).1.step l.forest.nextId =
      .source v.data := (Forest.step_addNode ..).trans (if_pos rfl)
  refine ⟨?_, ?_, ?_⟩
  · intro key id found'
    rw [Keyed.find?_put] at found'
    by_cases same : key = v.data.key
    · rw [if_pos same, Option.some.injEq] at found'
      subst found'
      have first := firstWith_new (sourced.absent _ found) v
      rw [if_pos rfl, ← same] at first
      exact ⟨List.mem_append_right _ (List.mem_singleton.mpr rfl), v, first, new⟩
    · rw [if_neg same] at found'
      obtain ⟨root, w, first, source⟩ := sourced.known key id found'
      exact ⟨grows.roots root, w, firstWith_earlier first _,
        (grows.step id (valid.rootKnown id root)).trans source⟩
  · intro key absent
    rw [Keyed.find?_put] at absent
    by_cases same : key = v.data.key
    · simp [same] at absent
    · rw [if_neg same] at absent
      rw [firstWith_new (sourced.absent key absent), if_neg (Ne.symm same)]
  · intro r root
    rcases List.mem_append.mp root with old | fresh
    · obtain ⟨w, listed, source⟩ := sourced.roots r old
      exact ⟨w, List.mem_append_left _ listed,
        (grows.step r (valid.rootKnown r old)).trans source⟩
    · rw [List.mem_singleton.mp fresh]
      exact ⟨v, List.mem_append_right _ (List.mem_singleton.mpr rfl), new⟩

-- A source that stands on its own strand, the one that the data of the first view with its key had.
structure Started (l : Lowering) (seen : List UnitView) (v w : UnitView)
    (r : Lowering × NodeId) : Prop where
  first : firstWith (seen ++ [v]) v.data.key = some w
  ready : Open r.1.forest r.2
  grows : l.forest.Grows r.1.forest
  sourced : r.1.Sourced (seen ++ [v])
  route : r.1.forest.route r.2 = [.source w.data]
  attached : r.1.forest.isAttached r.2 = true
  demand : r.1.demand = l.demand

theorem open_source (strands : f.Strands Boundary.IsRaw) (root : id ∈ f.roots)
    (source : f.step id = .source v.data) : Open f id := by
  refine ⟨strands, strands.valid.rootKnown id root, .inl (by simp [source, Step.isSource]), ?_⟩
  intro b output
  rw [source] at output
  cases output

theorem route_source (strands : f.Strands Boundary.IsRaw) (root : id ∈ f.roots)
    (source : f.step id = .source v.data) : f.route id = [.source v.data] := by
  rw [strands.valid.route_top (strands.valid.rootTop id root), source]

theorem source_spec (strands : l.forest.Strands Boundary.IsRaw) (sourced : l.Sourced seen)
    (v : UnitView) : ∃ w, Started l seen v w (l.source v.data) := by
  unfold Lowering.source
  cases found : l.sources.find? v.data.key with
  | some id =>
    obtain ⟨root, w, first, source⟩ := sourced.known _ _ found
    exact ⟨w, firstWith_earlier first _, open_source strands root source, .refl _,
      sourced.again found, route_source strands root source,
      strands.valid.attached_of_root root, rfl⟩
  | none =>
    have strands' := strands.addRoot "source" v.data
    have sourced' := sourced.brought strands.valid found
    have first := firstWith_new (sourced.absent _ found) v
    have root : l.forest.nextId ∈ (l.forest.addRoot "source" (.source v.data)).1.roots :=
      List.mem_append_right _ (List.mem_singleton.mpr rfl)
    have source : (l.forest.addRoot "source" (.source v.data)).1.step l.forest.nextId =
        .source v.data := (Forest.step_addNode ..).trans (if_pos rfl)
    exact ⟨v, first.trans (if_pos rfl), open_source strands' root source,
      Forest.grows_addRoot l.forest "source" (.source v.data), sourced',
      route_source strands' root source, strands'.valid.attached_of_root root, rfl⟩

structure Laid (f : Forest) (views : List UnitView) (v : UnitView) (p : Pipeline) (o : Outputs) :
    Prop where
  attached : f.isAttached o.main = true
  route : ∃ w, firstWith views v.data.key = some w ∧ f.route o.main = p.steps v w.data
  below : Above f.parent? o.raw o.main
  behind : f.route o.main = f.route o.raw ++ (p.late.map Prod.snd ++ [Pipeline.mainStep v])

theorem Laid.later {o : Outputs} (laid : Laid f seen v p o) (valid : f.WellFormed)
    (valid' : g.WellFormed) (grows : f.Grows g) (more : List UnitView) :
    Laid g (seen ++ more) v p o := by
  obtain ⟨w, first, route⟩ := laid.route
  have known := valid.attached_known laid.attached
  have same := grows.route valid valid' known
  have raw := grows.route valid valid' (valid.above_known laid.below known)
  exact ⟨grows.attached valid valid' known laid.attached, ⟨w, firstWith_earlier first more, same.trans route⟩,
    grows.above valid valid' known laid.below, by rw [same, raw, laid.behind]⟩

theorem lay_spec (strands : l.forest.Strands Boundary.IsRaw) (sourced : l.Sourced seen)
    (found : Pipeline.ofView registry index v = .ok p) :
    (l.lay v p).1.forest.Strands Boundary.IsRaw ∧ l.forest.Grows (l.lay v p).1.forest ∧
      (l.lay v p).1.Sourced (seen ++ [v]) ∧
      (∀ name, (l.lay v p).1.demand.isRequired name = l.demand.isRequired name) ∧
      Laid (l.lay v p).1.forest (seen ++ [v]) v p (l.lay v p).2 := by
  obtain ⟨w, first, open₀, grows, sourced', route, attached, demand⟩ :=
    source_spec strands sourced v
  have ordered : p.steps v w.data = [.source w.data] ++ (p.early.map Prod.snd ++
      [Pipeline.rawStep v]) ++ p.late.map Prod.snd ++ [Pipeline.mainStep v] := by
    simp [Pipeline.steps]
  have pairwise := Pipeline.steps_pairwise found w.data
  rw [ordered] at pairwise
  have beforeMain := pairwise.sublist (List.sublist_append_left ..)
  have latePlain := Pipeline.late_plain found
  have early : ([Step.source w.data] ++ p.early.map Prod.snd).Pairwise Step.LetsPass := by
    rw [← List.append_assoc] at beforeMain
    exact (beforeMain.sublist (List.sublist_append_left ..)).sublist (List.sublist_append_left ..)
  obtain ⟨one, open₁⟩ := extendAll_led open₀ p.early (Pipeline.early_plain found)
    (by rw [route]; exact early)
  obtain ⟨two, open₂⟩ := output_led open₁ "raw" (v.unitName ++ "_raw") .raw
  have toRaw := one.seq two
  obtain ⟨three, open₃⟩ := extendAll_led (open₂ ⟨_, rfl⟩) p.late
    (fun s member => ⟨(Step.isPlain_iff.mp (latePlain s member)).1,
      (Step.isPlain_iff.mp (latePlain s member)).2.2⟩)
    (by rw [toRaw.route, route]; exact beforeMain)
  obtain ⟨four, _⟩ := output_led open₃ "main" (v.unitName ++ "_main") .main
  have toMain := three.seq four
  have whole := toRaw.seq toMain
  have raw := toMain.grows.route toRaw.strands.valid toMain.strands.valid toRaw.known
  refine ⟨whole.strands, grows.trans whole.grows,
    sourced'.grows open₀.strands.valid whole.grows whole.sources whole.roots,
    fun name => (whole.quiet name).trans (by rw [demand]), whole.attached attached,
    ⟨w, first, whole.route.trans ?_⟩, toMain.below, toMain.route.trans (congrArg (· ++ _) raw.symm)⟩
  rw [route, ordered]
  simp only [List.append_assoc]
  rfl

theorem addViews_spec {views : List UnitView} {outputs : List Outputs}
    (strands : l.forest.Strands Boundary.IsRaw) (sourced : l.Sourced seen)
    (done : l.addViews registry index views = .ok (l', outputs)) :
    l'.forest.Strands Boundary.IsRaw ∧ l'.Sourced (seen ++ views) ∧ l.forest.Grows l'.forest ∧
      (∀ name, l'.demand.isRequired name = l.demand.isRequired name) ∧
      List.Forall₂ (fun v o => ∃ p, Pipeline.ofView registry index v = .ok p ∧
        Laid l'.forest (seen ++ views) v p o) views outputs := by
  induction views generalizing l seen outputs with
  | nil =>
    cases done
    rw [List.append_nil]
    exact ⟨strands, sourced, .refl _, fun _ => rfl, .nil⟩
  | cons v views ih =>
    obtain ⟨⟨l₁, o⟩, added, done⟩ := bind_eq_ok done
    obtain ⟨p, found, laid⟩ := bind_eq_ok added
    cases laid
    obtain ⟨⟨l₂, others⟩, rest, done⟩ := bind_eq_ok done
    cases done
    obtain ⟨strands₁, grows₁, sourced₁, quiet₁, laid⟩ := lay_spec strands sourced found
    obtain ⟨strands₂, sourced₂, grows₂, quiet₂, every⟩ := ih strands₁ sourced₁ rest
    rw [List.append_assoc] at every sourced₂
    refine ⟨strands₂, sourced₂, grows₁.trans grows₂, fun name => (quiet₂ name).trans (quiet₁ name),
      .cons ⟨p, found, ?_⟩ every⟩
    have later := laid.later strands₁.valid strands₂.valid grows₂ views
    rwa [List.append_assoc] at later

end Lowering
end Viewflow.Flow
