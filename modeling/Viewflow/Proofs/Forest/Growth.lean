import Viewflow.Proofs.Forest.Relink

namespace Viewflow.Flow.Forest

variable {f g : Forest} {id p x : NodeId} {name : String} {step : Step}

theorem node_addNode (f : Forest) (name : String) (step : Step) (x : NodeId) :
    (f.addNode name step).1.node x = if x = f.nextId then ⟨name, none, [], step⟩ else f.node x := by
  obtain ⟨i⟩ := x
  simp only [addNode, node, nextId, Array.getD_eq_getD_getElem?, Array.getElem?_push,
    NodeId.mk.injEq]
  split <;> rfl

theorem node_nextId (f : Forest) : f.node f.nextId = default :=
  node_unknown (Nat.lt_irrefl f.size)

theorem parent_addNode (f : Forest) (name : String) (step : Step) (x : NodeId) :
    (f.addNode name step).1.parent? x = f.parent? x := by
  rw [parent?, node_addNode]
  split
  · next new => rw [parent?, new, node_nextId]; rfl
  · rfl

theorem children_addNode (f : Forest) (name : String) (step : Step) (x : NodeId) :
    (f.addNode name step).1.children x = f.children x := by
  rw [children, node_addNode]
  split
  · next new => rw [children, new, node_nextId]; rfl
  · rfl

theorem size_addNode (f : Forest) (name : String) (step : Step) :
    (f.addNode name step).1.size = f.size + 1 := by simp [addNode, size]

theorem node_setStep (f : Forest) (id : NodeId) (step : Step) (x : NodeId) :
    (f.setStep id step).node x =
      if x = id ∧ id.index < f.size then { f.node id with step } else f.node x := by
  by_cases known : id.index < f.size
  · simp only [setStep, node_modify f id x _ known, known, and_true]
  · rw [if_neg fun same => known same.2]
    have beyond : f.nodes.size ≤ id.index := Nat.le_of_not_lt known
    simp only [setStep, modify, node, Array.getD_eq_getD_getElem?, Array.getElem?_modify]
    split
    · next same => rw [← same, Array.getElem?_eq_none beyond]; rfl
    · rfl

theorem parent_setStep (f : Forest) (id : NodeId) (step : Step) (x : NodeId) :
    (f.setStep id step).parent? x = f.parent? x := by
  rw [parent?, node_setStep]
  split
  · next same => rw [same.1]; rfl
  · rfl

theorem children_setStep (f : Forest) (id : NodeId) (step : Step) (x : NodeId) :
    (f.setStep id step).children x = f.children x := by
  rw [children, node_setStep]
  split
  · next same => rw [same.1]; rfl
  · rfl

theorem step_setStep (f : Forest) (known : id.index < f.size) (step : Step) (x : NodeId) :
    (f.setStep id step).step x = if x = id then step else f.step x := by
  rw [Forest.step, node_setStep]
  by_cases same : x = id <;> simp [same, known, Forest.step]

theorem nextId_ne (known : id.index < f.size) : id ≠ f.nextId := by
  rintro rfl
  exact Nat.lt_irrefl f.size known

namespace WellFormed

theorem of_same_edges (valid : f.WellFormed) (parent : ∀ x, g.parent? x = f.parent? x)
    (children : ∀ x, g.children x = f.children x) (roots : g.roots.Sublist f.roots)
    (larger : f.size ≤ g.size) : g.WellFormed where
  pointsBack p c listed := by
    rw [children] at listed
    rw [parent]
    exact valid.pointsBack p c listed
  listedOnce p c named := by
    rw [parent] at named
    rw [children]
    exact valid.listedOnce p c named
  rootKnown r root := Nat.lt_of_lt_of_le (valid.rootKnown r (roots.subset root)) larger
  rootTop r root := (parent r).trans (valid.rootTop r (roots.subset root))
  rootsDistinct := valid.rootsDistinct.sublist roots
  ends id := (valid.ends id).of_fewer fun x => .inl (parent x)

theorem addNode (valid : f.WellFormed) (name : String) (step : Step) :
    (f.addNode name step).1.WellFormed :=
  valid.of_same_edges (parent_addNode f name step) (children_addNode f name step)
    (List.Sublist.refl _) (by rw [size_addNode]; exact Nat.le_succ _)

theorem cloneNode (valid : f.WellFormed) (id : NodeId) : (f.cloneNode id).1.WellFormed :=
  valid.addNode _ _

theorem addRoot (valid : f.WellFormed) (name : String) (step : Step) :
    (f.addRoot name step).1.WellFormed := by
  have grown := valid.addNode name step
  have fresh : f.nextId ∉ f.roots := fun root => nextId_ne (valid.rootKnown _ root) rfl
  refine ⟨grown.pointsBack, grown.listedOnce, ?_, ?_, ?_, grown.ends⟩
  · intro r root
    rcases List.mem_append.mp root with old | new
    · exact grown.rootKnown r old
    · rw [List.mem_singleton.mp new]
      exact Nat.lt_of_lt_of_eq (Nat.lt_succ_self f.size) (size_addNode f name step).symm
  · intro r root
    rcases List.mem_append.mp root with old | new
    · exact grown.rootTop r old
    · rw [List.mem_singleton.mp new]
      exact (parent_addNode f name step _).trans (by rw [parent?, node_nextId]; rfl)
  · exact Distinct.append_one_nodup _ _ valid.rootsDistinct fresh

theorem addUnder (valid : f.WellFormed) (place : p.index < f.size) (name : String) (step : Step) :
    (f.addUnder p name step).1.WellFormed ∧
      Relinked (f.addNode name step).1 (f.addUnder p name step).1
        (fun x => if x = f.nextId then some p else f.parent? x)
        (fun x => f.children x ++ if x = p then [f.nextId] else []) f.roots := by
  have grown := valid.addNode name step
  have top : (f.addNode name step).1.parent? f.nextId = none := by
    rw [parent_addNode, parent?, node_nextId]
    rfl
  have childless : (f.addNode name step).1.children f.nextId = [] := by
    rw [children_addNode, children, node_nextId]
    rfl
  have known : f.nextId.index < (f.addNode name step).1.size := by
    rw [size_addNode]
    exact Nat.lt_succ_self f.size
  obtain ⟨valid', relinked⟩ := grown.adopt known (Nat.lt_trans place known) top
    (fun root => nextId_ne (valid.rootKnown _ root) rfl)
    (fun above => nextId_ne place (grown.eq_of_above_childless childless above))
  refine ⟨valid', relinked.congr (?_) (?_) rfl⟩
  · intro x
    rw [parent_addNode]
  · intro x
    rw [children_addNode]

theorem setStep (valid : f.WellFormed) (id : NodeId) (step : Step) :
    (f.setStep id step).WellFormed :=
  valid.of_same_edges (parent_setStep f id step) (children_setStep f id step) (List.Sublist.refl _)
    (Nat.le_of_eq (size_modify ..).symm)

theorem pruneEmptyRoots (valid : f.WellFormed) : f.pruneEmptyRoots.WellFormed :=
  valid.of_same_edges (fun _ => rfl) (fun _ => rfl) List.filter_sublist (Nat.le_refl _)

end WellFormed
end Viewflow.Flow.Forest
