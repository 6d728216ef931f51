import Viewflow.Proofs.Forest.Strands

namespace Viewflow.Flow.Forest

variable {f g h : Forest} {inner : Boundary → Prop} {id p kept twin : NodeId}
  {down : NodeId → List NodeId}

-- What is attached and coerces stands right under a source.
structure Settled (f : Forest) : Prop where
  valid : f.WellFormed
  sources : ∀ id, (f.step id).isSource = true → f.parent? id = none
  grounded : ∀ id p, f.isAttached id = true → (f.step id).isParse = true →
    f.parent? id = some p → (f.step p).isSource = true

structure Keeps (f g : Forest) : Prop where
  step : ∀ x, g.step x = f.step x
  roots : g.roots ⊆ f.roots

theorem Keeps.refl (f : Forest) : Keeps f f := ⟨fun _ => rfl, fun _ root => root⟩

theorem Keeps.trans (one : Keeps f g) (two : Keeps g h) : Keeps f h :=
  ⟨fun x => (two.step x).trans (one.step x), fun _ member => one.roots (two.roots member)⟩

structure Thinned (f g : Forest) : Prop extends Keeps f g where
  fewer : ∀ x, g.parent? x = f.parent? x ∨ g.parent? x = none

namespace Thinned

theorem refl (f : Forest) : Thinned f f := ⟨.refl f, fun _ => .inl rfl⟩

theorem trans (one : Thinned f g) (two : Thinned g h) : Thinned f h where
  toKeeps := one.toKeeps.trans two.toKeeps
  fewer x := by
    rcases two.fewer x with same | gone
    · rw [same]
      exact one.fewer x
    · exact .inr gone

variable (thinned : Thinned f g)
include thinned

theorem parent (named : g.parent? id = some p) : f.parent? id = some p := by
  rcases thinned.fewer id with same | gone
  · exact same.symm.trans named
  · rw [gone] at named
    cases named

theorem attached (valid : f.WellFormed) (valid' : g.WellFormed) (attached : g.isAttached id = true) :
    f.isAttached id = true :=
  valid'.attached_back
    (fun _ _ named higher => (valid.attached_iff_parent (thinned.parent named)).mpr higher)
    (fun _ root => valid.attached_of_root (thinned.roots root)) attached

theorem top (top : f.parent? id = none) : g.parent? id = none := by
  rcases thinned.fewer id with same | gone
  · exact same.trans top
  · exact gone

theorem settled (settled : f.Settled) (valid' : g.WellFormed) : g.Settled where
  valid := valid'
  sources id source := thinned.top (settled.sources id ((thinned.step id).symm ▸ source))
  grounded id p attached parse named := by
    rw [thinned.step] at parse ⊢
    exact settled.grounded id p (thinned.attached settled.valid valid' attached) parse
      (thinned.parent named)

theorem strands (strands : f.Strands inner) (valid' : g.WellFormed) : g.Strands inner where
  valid := valid'
  sources id source := thinned.top (strands.sources id ((thinned.step id).symm ▸ source))
  rooted r root := by
    rw [thinned.step]
    exact strands.rooted r (thinned.roots root)
  single p c d inside one two := by
    rw [thinned.step] at inside
    exact strands.single p c d inside (thinned.parent one) (thinned.parent two)
  clear id a above other := by
    rw [thinned.step, thinned.step]
    exact strands.clear id a (above.of_fewer thinned.fewer) other
  inner id p b named output := by
    rw [thinned.step] at output
    exact strands.inner id p b (thinned.parent named) output

end Thinned

theorem thinned_removed (childless : f.children id = []) (valid : f.WellFormed)
    (relinked : Relinked f g (bypass f.parent? id p) down f.roots) : Thinned f g where
  step := relinked.step
  fewer x := by
    rw [relinked.parent]
    by_cases same : x = id
    · exact .inr (same ▸ bypass_self)
    · exact .inl (bypass_of_apart same (valid.no_parent_of_childless childless x))
  roots root member := relinked.roots ▸ member

theorem attached_absorbed (valid : f.WellFormed) (valid' : g.WellFormed)
    (one : f.parent? kept = some p) (two : f.parent? twin = some p)
    (relinked : Relinked f g (bypass f.parent? twin kept) down f.roots)
    (attached : g.isAttached id = true) : f.isAttached id = true := by
  apply valid'.attached_back _ _ attached
  · intro x q edge higher
    rw [relinked.parent] at edge
    rcases bypass_cases edge with ⟨_, ⟨under, rfl⟩ | ⟨_, named⟩⟩
    · rw [valid.attached_iff_parent under, valid.attached_iff_parent two,
        ← valid.attached_iff_parent one]
      exact higher
    · exact (valid.attached_iff_parent named).mpr higher
  · intro r root
    exact valid.attached_of_root (relinked.roots ▸ root)

-- No source has siblings, so that one sibling can take over from another without moving a coercion.
theorem Settled.absorbed (settled : f.Settled) (valid' : g.WellFormed)
    (one : f.parent? kept = some p) (two : f.parent? twin = some p)
    (relinked : Relinked f g (bypass f.parent? twin kept) down f.roots) : g.Settled := by
  refine ⟨valid', ?_, ?_⟩
  · intro x source
    rw [relinked.step] at source
    rw [relinked.parent, bypass_top (settled.sources x source)]
  · intro x q attached parse edge
    have attached' := attached_absorbed settled.valid valid' one two relinked attached
    rw [relinked.step] at parse ⊢
    rw [relinked.parent] at edge
    rcases bypass_cases edge with ⟨_, ⟨under, _⟩ | ⟨_, named⟩⟩
    · have source := settled.grounded x twin attached' parse under
      rw [settled.sources twin source] at two
      cases two
    · exact settled.grounded x q attached' parse named

end Viewflow.Flow.Forest
