import Viewflow.Flow.Forest

namespace Viewflow.Flow

variable {up next : NodeId → Option NodeId} {a b c p q id x : NodeId} {l m : List NodeId}

inductive Above (up : NodeId → Option NodeId) (a : NodeId) : NodeId → Prop where
  | here : Above up a a
  | under {id p : NodeId} : up id = some p → Above up a p → Above up a id

inductive Ends (up : NodeId → Option NodeId) : NodeId → Prop where
  | top {id : NodeId} : up id = none → Ends up id
  | under {id p : NodeId} : up id = some p → Ends up p → Ends up id

inductive Line (up : NodeId → Option NodeId) : NodeId → List NodeId → Prop where
  | top {id : NodeId} : up id = none → Line up id [id]
  | under {id p : NodeId} {l : List NodeId} : up id = some p → Line up p l → Line up id (id :: l)

theorem Above.trans (upper : Above up a b) (lower : Above up b c) : Above up a c := by
  induction lower with
  | here => exact upper
  | under named _ ih => exact .under named ih

theorem Above.parent (named : up id = some p) : Above up p id := .under named .here

theorem Above.cases_parent (above : Above up a id) (named : up id = some p) :
    a = id ∨ Above up a p := by
  cases above with
  | here => exact .inl rfl
  | under named' higher =>
    rw [named] at named'
    cases named'
    exact .inr higher

theorem Above.cases_child (above : Above up a id) :
    id = a ∨ ∃ c, up c = some a ∧ Above up c id := by
  induction above with
  | here => exact .inl rfl
  | @under id p named _ ih =>
    rcases ih with same | ⟨c, child, above⟩
    · exact .inr ⟨id, same ▸ named, .here⟩
    · exact .inr ⟨c, child, .under named above⟩

theorem Above.eq_of_top (above : Above up a id) (top : up id = none) : a = id := by
  cases above with
  | here => rfl
  | under named _ => rw [top] at named; cases named

theorem Above.linear (left : Above up a c) (right : Above up b c) :
    Above up a b ∨ Above up b a := by
  induction left with
  | here => exact .inr right
  | under named higher ih =>
    rcases right.cases_parent named with rfl | right
    · exact .inl (.under named higher)
    · exact ih right

theorem Ends.parent (ends : Ends up id) (named : up id = some p) : Ends up p := by
  cases ends with
  | top top => rw [top] at named; cases named
  | under named' ends =>
    rw [named] at named'
    cases named'
    exact ends

theorem Ends.no_return (ends : Ends up id) (named : up id = some p) : ¬ Above up id p := by
  induction ends generalizing p with
  | top top => rw [top] at named; cases named
  | @under id q named' _ ih =>
    rw [named] at named'
    cases named'
    intro above
    cases above with
    | here => exact ih named .here
    | @under _ r named'' higher =>
      exact ih named'' ((Above.parent named).trans higher)

theorem Ends.ne_parent (ends : Ends up id) (named : up id = some p) : id ≠ p := by
  intro same
  exact ends.no_return named (same ▸ .here)

theorem Ends.of_fewer (fewer : ∀ x, next x = up x ∨ next x = none) (ends : Ends up id) :
    Ends next id := by
  induction ends with
  | top top =>
    rcases fewer _ with same | gone
    · exact .top (same.trans top)
    · exact .top gone
  | under named _ ih =>
    rcases fewer _ with same | gone
    · exact .under (same.trans named) ih
    · exact .top gone

theorem Above.of_higher (higher : ∀ x y, next x = some y → Above up y x)
    (above : Above next a id) : Above up a id := by
  induction above with
  | here => exact .here
  | under named _ ih => exact ih.trans (higher _ _ named)

theorem Above.of_fewer (fewer : ∀ x, next x = up x ∨ next x = none) (above : Above next a id) :
    Above up a id := by
  apply above.of_higher
  intro x y named
  rcases fewer x with same | gone
  · exact .parent (same.symm.trans named)
  · rw [gone] at named; cases named

-- What is above a node changes only with what is above the node that is put elsewhere.
theorem Above.of_put (put : ∀ x, next x = if x = a then some p else up x)
    (apart : ¬ Above up a id) (above : Above next b id) : Above up b id := by
  induction above with
  | here => exact .here
  | @under x q named _ ih =>
    have other : x ≠ a := fun same => apart (same ▸ Above.here)
    rw [put, if_neg other] at named
    exact .under named (ih fun above => apart (.under named above))

theorem Ends.of_put (put : ∀ x, next x = if x = a then some p else up x)
    (ends : ∀ x, Ends up x) (free : ¬ Above up a p) (id : NodeId) : Ends next id := by
  have around : ∀ x, ¬ Above up a x → Ends up x → Ends next x := by
    intro x apart finite
    induction finite with
    | @top x top =>
      have other : x ≠ a := fun same => apart (same ▸ Above.here)
      exact .top (by rw [put, if_neg other, top])
    | @under x q named _ ih =>
      have other : x ≠ a := fun same => apart (same ▸ Above.here)
      exact .under (by rw [put, if_neg other, named])
        (ih fun above => apart (.under named above))
  have reached : Ends next a := .under (by rw [put, if_pos rfl]) (around p free (ends p))
  have finite := ends id
  induction finite with
  | @top x top =>
    by_cases same : x = a
    · exact same ▸ reached
    · exact .top (by rw [put, if_neg same, top])
  | @under x q named _ ih =>
    by_cases same : x = a
    · exact same ▸ reached
    · exact .under (by rw [put, if_neg same, named]) ih

theorem Ends.without (ends : Ends up id) (a : NodeId) :
    Ends (fun x => if x = a then none else up x) id := by
  apply ends.of_fewer
  intro x
  by_cases same : x = a <;> simp [same]

theorem Above.eq_of_unused (unused : ∀ x, up x ≠ some a) (above : Above up a id) : id = a := by
  induction above with
  | here => rfl
  | under named _ ih =>
    subst ih
    exact absurd named (unused _)

theorem Ends.of_taken (ends : ∀ x, Ends up x) (unused : ∀ x, up x ≠ some a) (id : NodeId) :
    Ends (fun x => if x = a then up b else if x = b then none else up x) id := by
  have fewer : ∀ x, (if x = b then none else up x) = up x ∨ (if x = b then none else up x) = none := by
    intro x
    by_cases same : x = b <;> simp [same]
  cases named : up b with
  | none =>
    apply (ends id).of_fewer
    intro x
    by_cases same : x = a
    · simp [same]
    · simpa [same] using fewer x
  | some above =>
    apply Ends.of_put (fun _ => rfl) fun x => (ends x).without b
    intro wrong
    have same := (wrong.of_fewer fewer).eq_of_unused unused
    exact unused b (same ▸ named)

-- What was under the node is under p, and the node on its own.
def bypass (up : NodeId → Option NodeId) (id p x : NodeId) : Option NodeId :=
  if x = id then none else if up x = some id then some p else up x

-- The node has the parent that p had, and p the children that the node had, but no parent.
def lift (up : NodeId → Option NodeId) (id p x : NodeId) : Option NodeId :=
  if x = id then up p else if x = p then none else if up x = some id then some p else up x

def exchange (up : NodeId → Option NodeId) (id p x : NodeId) : Option NodeId :=
  if x = id then up p else if x = p then some id else if up x = some id then some p else up x

@[simp] theorem bypass_self : bypass up id p id = none := if_pos rfl

theorem bypass_of_under (other : x ≠ id) (under : up x = some id) : bypass up id p x = some p := by
  simp [bypass, other, under]

theorem bypass_of_apart (other : x ≠ id) (apart : up x ≠ some id) : bypass up id p x = up x := by
  simp [bypass, other, apart]

theorem bypass_top (top : up x = none) : bypass up id p x = none := by
  simp [bypass, top]

theorem bypass_isSome (other : x ≠ id) : (bypass up id p x).isSome = (up x).isSome := by
  by_cases under : up x = some id
  · simp [bypass_of_under other under, under]
  · rw [bypass_of_apart other under]

theorem bypass_cases (edge : bypass up id p x = some q) :
    x ≠ id ∧ (up x = some id ∧ q = p ∨ up x ≠ some id ∧ up x = some q) := by
  unfold bypass at edge
  grind

@[simp] theorem lift_self : lift up id p id = up p := if_pos rfl

theorem above_of_lift (named : up id = some p) (edge : lift up id p x = some a) :
    Above up a x := by
  unfold lift at edge
  by_cases atNode : x = id
  · rw [if_pos atNode] at edge
    exact atNode ▸ (Above.parent edge).trans (.parent named)
  · rw [if_neg atNode] at edge
    by_cases atParent : x = p
    · simp [atParent] at edge
    · rw [if_neg atParent] at edge
      by_cases below : up x = some id
      · rw [if_pos below] at edge
        cases edge
        exact (Above.parent named).trans (.parent below)
      · rw [if_neg below] at edge
        exact .parent edge

@[simp] theorem exchange_self : exchange up id p id = up p := if_pos rfl

theorem exchange_parent (apart : id ≠ p) : exchange up id p p = some id := by
  simp [exchange, Ne.symm apart]

theorem exchange_of_under (other : x ≠ id) (elsewhere : x ≠ p) (under : up x = some id) :
    exchange up id p x = some p := by
  simp [exchange, other, elsewhere, under]

theorem exchange_of_apart (other : x ≠ id) (elsewhere : x ≠ p) (apart : up x ≠ some id) :
    exchange up id p x = up x := by
  simp [exchange, other, elsewhere, apart]

theorem exchange_top (other : x ≠ id) (elsewhere : x ≠ p) (top : up x = none) :
    exchange up id p x = none := by
  simp [exchange, other, elsewhere, top]

theorem exchange_isSome (other : x ≠ id) (placed : (up x).isSome = true) :
    (exchange up id p x).isSome = true := by
  unfold exchange
  rw [if_neg other]
  split
  · rfl
  · split
    · rfl
    · exact placed

theorem exchange_cases (edge : exchange up id p x = some q) :
    x = id ∧ up p = some q ∨ x = p ∧ q = id ∨
      x ≠ id ∧ x ≠ p ∧ (up x = some id ∧ q = p ∨ up x ≠ some id ∧ up x = some q) := by
  unfold exchange at edge
  by_cases atNode : x = id
  · rw [if_pos atNode] at edge
    exact .inl ⟨atNode, edge⟩
  · rw [if_neg atNode] at edge
    by_cases atParent : x = p
    · rw [if_pos atParent, Option.some.injEq] at edge
      exact .inr (.inl ⟨atParent, edge.symm⟩)
    · rw [if_neg atParent] at edge
      refine .inr (.inr ⟨atNode, atParent, ?_⟩)
      by_cases under : up x = some id
      · rw [if_pos under, Option.some.injEq] at edge
        exact .inl ⟨under, edge.symm⟩
      · rw [if_neg under] at edge
        exact .inr ⟨under, edge⟩

-- Taken back, an exchange has put what else was under the parent under the node.
theorem exchange_exchange (named : up id = some p) (different : id ≠ p) (apart : up p ≠ some p)
    (x : NodeId) :
    exchange (exchange up id p) p id x = if x ≠ id ∧ up x = some p then some id else up x := by
  by_cases atNode : x = id
  · rw [atNode, exchange_parent (Ne.symm different), if_neg (by simp), named]
  · by_cases atParent : x = p
    · rw [atParent, exchange_self, exchange_self, if_neg (fun both => apart both.2)]
    · by_cases below : up x = some id
      · have handed : exchange up id p x = some p := exchange_of_under atNode atParent below
        rw [exchange_of_under atParent atNode handed, below]
        simp [different]
      · have kept : exchange up id p x = up x := exchange_of_apart atNode atParent below
        by_cases beside : up x = some p
        · rw [exchange_of_under atParent atNode (kept.trans beside), if_pos ⟨atNode, beside⟩]
        · rw [exchange_of_apart atParent atNode (by rwa [kept]), kept, if_neg (fun both => beside both.2)]

theorem Ends.line (ends : Ends up id) : ∃ l, Line up id l := by
  induction ends with
  | top top => exact ⟨_, .top top⟩
  | under named _ ih =>
    obtain ⟨l, line⟩ := ih
    exact ⟨_, .under named line⟩

theorem Line.mem_iff (line : Line up id l) : a ∈ l ↔ Above up a id := by
  induction line with
  | @top id top =>
    rw [List.mem_singleton]
    refine ⟨?_, fun above => above.eq_of_top top⟩
    rintro rfl
    exact .here
  | @under id p l named _ ih =>
    rw [List.mem_cons, ih]
    constructor
    · rintro (rfl | above)
      · exact .here
      · exact .under named above
    · exact fun above => above.cases_parent named

theorem Line.nodup (ends : Ends up id) (line : Line up id l) : l.Nodup := by
  induction line with
  | top _ => simp
  | under named line ih =>
    refine List.nodup_cons.mpr ⟨?_, ih (ends.parent named)⟩
    intro again
    exact ends.no_return named (line.mem_iff.mp again)

theorem Line.unique (left : Line up id l) (right : Line up id m) : l = m := by
  induction left generalizing m with
  | top top =>
    cases right with
    | top _ => rfl
    | under named _ => rw [top] at named; cases named
  | under named _ ih =>
    cases right with
    | top top => rw [top] at named; cases named
    | under named' line =>
      rw [named] at named'
      cases named'
      rw [ih line]

theorem Line.exists_top (line : Line up id l) :
    ∃ top, l.getLast? = some top ∧ up top = none ∧ Above up top id := by
  induction line with
  | @top id top => exact ⟨id, rfl, top, .here⟩
  | under named line ih =>
    obtain ⟨top, last, orphan, above⟩ := ih
    refine ⟨top, ?_, orphan, .under named above⟩
    rw [List.getLast?_cons, last]
    rfl

end Viewflow.Flow
