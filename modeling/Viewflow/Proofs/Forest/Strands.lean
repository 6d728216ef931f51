import Viewflow.Proofs.Forest.Growth
import Viewflow.Proofs.Forest.Route

namespace Viewflow.Flow

-- A coercion below this step can change places with it.
def Step.LetsPass (upper lower : Step) : Prop :=
  lower.isParse = true → upper.isParse = false ∧ lower.dependent.isDisjoint upper.produced = true

namespace Forest

variable {f g h : Forest} {inner outer : Boundary → Prop} {id head p x : NodeId} {name : String}
  {step : Step} {data : DataRef}

-- Only a source forks, and nothing on a strand is in the way of a coercion below it.
structure Strands (inner : Boundary → Prop) (f : Forest) : Prop where
  valid : f.WellFormed
  sources : ∀ id, (f.step id).isSource = true → f.parent? id = none
  rooted : ∀ r ∈ f.roots, (f.step r).isSource = true
  single : ∀ p c d, (f.step p).isSource = false → f.parent? c = some p → f.parent? d = some p → c = d
  clear : ∀ id a, Above f.parent? a id → a ≠ id → (f.step a).LetsPass (f.step id)
  inner : ∀ id p b, f.parent? id = some p → f.step p = .output b → inner b

theorem Strands.weaken (strands : f.Strands inner) (weaker : ∀ b, inner b → outer b) :
    f.Strands outer :=
  ⟨strands.valid, strands.sources, strands.rooted, strands.single, strands.clear,
    fun id p b named output => weaker b (strands.inner id p b named output)⟩

theorem Strands.empty (inner : Boundary → Prop) : Forest.empty.Strands inner where
  valid := .empty
  sources id source := by simp [Forest.step, node, Forest.empty] at source; cases source
  rooted r root := by cases root
  single p c d _ named _ := by cases known_of_parent named
  clear id a above other := by
    cases above with
    | here => exact absurd rfl other
    | under named _ => cases known_of_parent named
  inner id p b named _ := by cases known_of_parent named

structure Grows (f g : Forest) : Prop where
  size : f.size ≤ g.size
  step : ∀ x, x.index < f.size → g.step x = f.step x
  parent : ∀ x, x.index < f.size → g.parent? x = f.parent? x
  roots : f.roots ⊆ g.roots

namespace Grows

theorem refl (f : Forest) : Grows f f :=
  ⟨Nat.le_refl _, fun _ _ => rfl, fun _ _ => rfl, fun _ root => root⟩

theorem trans (one : Grows f g) (two : Grows g h) : Grows f h where
  size := Nat.le_trans one.size two.size
  step x known := (two.step x (Nat.lt_of_lt_of_le known one.size)).trans (one.step x known)
  parent x known := (two.parent x (Nat.lt_of_lt_of_le known one.size)).trans (one.parent x known)
  roots _ member := two.roots (one.roots member)

variable (grows : Grows f g) (valid : f.WellFormed) (valid' : g.WellFormed)
  (known : x.index < f.size)
include grows valid valid' known

theorem lineage : g.lineage x = f.lineage x := by
  have kept : ∀ l, Line f.parent? x l → Line g.parent? x l := by
    intro l line
    induction line with
    | top top => exact .top ((grows.parent _ known).trans top)
    | under named _ ih =>
      exact .under ((grows.parent _ known).trans named) (ih (valid.parent_known named))
  exact valid'.lineage_of_line (kept _ (valid.lineage_line x))

theorem route : g.route x = f.route x := by
  have steps : ∀ a ∈ f.lineage x, g.step a = f.step a := by
    intro a member
    exact grows.step a (valid.above_known (valid.mem_lineage_iff.mp member) known)
  unfold Forest.route
  rw [grows.lineage valid valid' known, List.map_congr_left steps]

theorem above {a : NodeId} (above : Above f.parent? a x) : Above g.parent? a x := by
  rw [← valid'.mem_lineage_iff, grows.lineage valid valid' known]
  exact valid.mem_lineage_iff.mpr above

theorem top : g.top x = f.top x := by
  unfold Forest.top
  rw [grows.lineage valid valid' known]

theorem attached (attached : f.isAttached x = true) : g.isAttached x = true := by
  unfold isAttached at attached ⊢
  rw [grows.top valid valid' known, List.contains_iff_mem]
  exact grows.roots (List.contains_iff_mem.mp attached)

end Grows

theorem step_addNode (f : Forest) (name : String) (step : Step) (x : NodeId) :
    (f.addNode name step).1.step x = if x = f.nextId then step else f.step x := by
  unfold Forest.step
  rw [node_addNode]
  split <;> rfl

theorem parent_nextId (f : Forest) : f.parent? f.nextId = none := by
  unfold parent?
  rw [node_nextId]
  rfl

theorem children_nextId (f : Forest) : f.children f.nextId = [] := by
  unfold children
  rw [node_nextId]
  rfl

theorem grows_addRoot (f : Forest) (name : String) (step : Step) :
    Grows f (f.addRoot name step).1 where
  size := Nat.le_of_lt (Nat.lt_of_lt_of_eq (Nat.lt_succ_self _) (size_addNode f name step).symm)
  step x known := (step_addNode f name step x).trans (if_neg (nextId_ne known))
  parent x _ := parent_addNode f name step x
  roots _ root := List.mem_append_left _ root

theorem Strands.addRoot (strands : f.Strands inner) (name : String) (data : DataRef) :
    (f.addRoot name (.source data)).1.Strands inner := by
  have valid := strands.valid
  have step : ∀ x, (f.addRoot name (.source data)).1.step x =
      if x = f.nextId then .source data else f.step x := step_addNode f name _
  have parent : (f.addRoot name (.source data)).1.parent? = f.parent? :=
    funext (parent_addNode f name _)
  refine ⟨valid.addRoot name _, ?_, ?_, ?_, ?_, ?_⟩
  · intro x source
    rw [parent]
    by_cases new : x = f.nextId
    · rw [new, parent_nextId]
    · rw [step, if_neg new] at source
      exact strands.sources x source
  · intro r root
    rw [step]
    by_cases new : r = f.nextId
    · simp [new, Step.isSource]
    · rw [if_neg new]
      rcases List.mem_append.mp root with old | fresh
      · exact strands.rooted r old
      · exact absurd (List.mem_singleton.mp fresh) new
  · intro p c d inside one two
    rw [parent] at one two
    rw [step, if_neg (nextId_ne (valid.parent_known one))] at inside
    exact strands.single p c d inside one two
  · intro x a above other
    rw [parent] at above
    rw [step, step]
    by_cases old : a = f.nextId
    · have same := valid.eq_of_above_childless (children_nextId f) (old ▸ above)
      exact absurd (old.trans same.symm) other
    · rw [if_neg old]
      by_cases new : x = f.nextId
      · rw [if_pos new]
        intro parse
        cases parse
      · rw [if_neg new]
        exact strands.clear x a above other
  · intro x p b named output
    rw [parent] at named
    rw [step, if_neg (nextId_ne (valid.parent_known named))] at output
    exact strands.inner x p b named output

structure Tip (f g : Forest) (head : NodeId) (step : Step) (id : NodeId) : Prop where
  grows : Grows f g
  known : id.index < g.size
  parent : g.parent? id = some head
  step : g.step id = step
  childless : g.children id = []
  roots : g.roots = f.roots

section AddUnder

variable (valid : f.WellFormed) (known : head.index < f.size)
include valid known

theorem parent_addUnder (x : NodeId) : (f.addUnder head name step).1.parent? x =
    if x = f.nextId then some head else f.parent? x :=
  (valid.addUnder known name step).2.parent x

theorem step_addUnder (x : NodeId) :
    (f.addUnder head name step).1.step x = if x = f.nextId then step else f.step x :=
  ((valid.addUnder known name step).2.step x).trans (step_addNode f name step x)

theorem tip_addUnder (name : String) (step : Step) :
    Tip f (f.addUnder head name step).1 head step f.nextId := by
  obtain ⟨_, relinked⟩ := valid.addUnder known name step
  have size : (f.addUnder head name step).1.size = f.size + 1 :=
    relinked.size.trans (size_addNode f name step)
  refine ⟨⟨?_, ?_, ?_, ?_⟩, ?_, ?_, ?_, ?_, relinked.roots⟩
  · omega
  · intro x old
    rw [step_addUnder valid known, if_neg (nextId_ne old)]
  · intro x old
    rw [parent_addUnder valid known, if_neg (nextId_ne old)]
  · rw [relinked.roots]
    exact fun _ root => root
  · rw [size]
    exact Nat.lt_succ_self _
  · rw [parent_addUnder valid known, if_pos rfl]
  · rw [step_addUnder valid known, if_pos rfl]
  · rw [relinked.children, children_nextId, if_neg (Ne.symm (nextId_ne known))]
    rfl

theorem above_addUnder {a : NodeId} (above : Above (f.addUnder head name step).1.parent? a id) :
    id = f.nextId ∧ (a = id ∨ Above f.parent? a head) ∨ id ≠ f.nextId ∧ Above f.parent? a id := by
  have bare : ∀ x, Above f.parent? f.nextId x → x = f.nextId := fun x above =>
    valid.eq_of_above_childless (children_nextId f) above
  by_cases new : id = f.nextId
  · refine .inl ⟨new, ?_⟩
    have named : (f.addUnder head name step).1.parent? id = some head := by
      rw [parent_addUnder valid known, if_pos new]
    rcases above.cases_parent named with same | above
    · exact .inl same
    · exact .inr (above.of_put (parent_addUnder valid known) fun wrong =>
        nextId_ne known (bare head wrong))
  · exact .inr ⟨new, above.of_put (parent_addUnder valid known) fun wrong => new (bare id wrong)⟩

theorem edge_addUnder (named : (f.addUnder head name step).1.parent? x = some p) :
    x = f.nextId ∧ p = head ∨ x ≠ f.nextId ∧ f.parent? x = some p := by
  rw [parent_addUnder valid known] at named
  by_cases new : x = f.nextId
  · rw [if_pos new, Option.some.injEq] at named
    exact .inl ⟨new, named.symm⟩
  · rw [if_neg new] at named
    exact .inr ⟨new, named⟩

end AddUnder

theorem Strands.addUnder (strands : f.Strands inner) (known : head.index < f.size)
    (free : (f.step head).isSource = true ∨ f.children head = [])
    (silent : ∀ b, f.step head = .output b → inner b) (plain : step.isSource = false)
    (clear : ∀ upper ∈ f.route head, upper.LetsPass step) (name : String) :
    (f.addUnder head name step).1.Strands inner := by
  have valid := strands.valid
  have tip := tip_addUnder valid known name step
  have alone : ∀ c, f.parent? c = some head → (f.step head).isSource = true := by
    intro c named
    rcases free with source | childless
    · exact source
    · exact absurd named (valid.no_parent_of_childless childless c)
  refine ⟨(valid.addUnder known name step).1, ?_, ?_, ?_, ?_, ?_⟩
  · intro x source
    rw [step_addUnder valid known] at source
    rw [parent_addUnder valid known]
    by_cases new : x = f.nextId
    · simp [new, plain] at source
    · rw [if_neg new] at source ⊢
      exact strands.sources x source
  · intro r root
    rw [tip.roots] at root
    rw [tip.grows.step r (valid.rootKnown r root)]
    exact strands.rooted r root
  · intro p c d inside one two
    rcases edge_addUnder valid known one with ⟨first, rfl⟩ | ⟨_, before⟩
    · rw [tip.grows.step p known] at inside
      rcases edge_addUnder valid known two with ⟨second, _⟩ | ⟨_, before⟩
      · rw [first, second]
      · simp [alone d before] at inside
    · rw [tip.grows.step p (valid.parent_known before)] at inside
      rcases edge_addUnder valid known two with ⟨_, rfl⟩ | ⟨_, before'⟩
      · simp [alone c before] at inside
      · exact strands.single p c d inside before before'
  · intro x a above other
    rcases above_addUnder valid known above with ⟨new, same | above⟩ | ⟨old, above⟩
    · exact absurd same other
    · rw [step_addUnder valid known x, if_pos new, tip.grows.step a (valid.above_known above known)]
      exact clear _ (valid.mem_route above)
    · have before : a ≠ f.nextId := by
        intro new
        exact old (valid.eq_of_above_childless (children_nextId f) (new ▸ above))
      rw [step_addUnder valid known x, if_neg old, step_addUnder valid known a, if_neg before]
      exact strands.clear x a above other
  · intro x p b named output
    rcases edge_addUnder valid known named with ⟨_, rfl⟩ | ⟨_, before⟩
    · rw [tip.grows.step p known] at output
      exact silent b output
    · rw [tip.grows.step p (valid.parent_known before)] at output
      exact strands.inner x p b before output

end Forest
end Viewflow.Flow
