import Viewflow.Proofs.Emission.Visit
import Viewflow.Proofs.Passes.Fixpoint

namespace Viewflow.Flow.Forest

variable {f g : Forest} {demand : Demand} {mains gone : List NodeId} {c id p q x : NodeId} {t : Tally}
  {down : NodeId → List NodeId} {roots : List NodeId}

structure Asked (f : Forest) (demand : Demand) (mains : List NodeId) : Prop where
  tips : ∀ id, f.isAttached id = true → f.children id = [] → f.wanted demand id = true
  wanted : ∀ id, f.isAttached id = true → f.wanted demand id = true → id ∈ mains

theorem wanted_of_step (same : g.step x = f.step x) : g.wanted demand x = f.wanted demand x := by
  unfold wanted
  rw [same]

theorem wanted_of_parse (parse : (f.step x).isParse = true) : f.wanted demand x = false := by
  unfold wanted
  cases step : f.step x <;> simp [step, Step.isParse] at parse ⊢

theorem Spare.unasked (spare : f.Spare demand id) : f.wanted demand id = false := by
  unfold wanted
  split
  · next b output => exact spare.unwanted b output
  · rfl

theorem wanted_mergeParse (f : Forest) (demand : Demand) (id into x : NodeId) :
    (f.mergeParse id into).wanted demand x = f.wanted demand x := by
  rcases mergeParse_cases f id into with same | ⟨upper, merged, found, changed⟩
  · rw [same]
  · rw [changed]
    rcases step_setStep_of_parse merged found x with same | ⟨before, after⟩
    · exact wanted_of_step same
    · rw [wanted_of_parse before, wanted_of_parse after]

theorem WellFormed.exists_child (valid : f.WellFormed) :
    f.children x ≠ [] ↔ ∃ c, f.parent? c = some x := by
  simp only [ne_eq, List.eq_nil_iff_forall_not_mem, valid.mem_children_iff, not_forall, not_not]

theorem Sheds.asked (sheds : Sheds f g gone) (valid : f.WellFormed) (valid' : g.WellFormed)
    (asked : f.Asked demand mains) (same : ∀ x, g.wanted demand x = f.wanted demand x)
    (fed : ∀ x c, g.isAttached x = true → f.parent? c = some x → ∃ d, g.parent? d = some x) :
    g.Asked demand mains := by
  have before : ∀ x, g.isAttached x = true → f.isAttached x = true :=
    fun x attached => ((sheds.attached_iff x).mp attached).1
  refine ⟨?_, ?_⟩
  · intro x attached childless
    rw [same]
    apply asked.tips x (before x attached)
    by_contra some
    obtain ⟨c, under⟩ := valid.exists_child.mp some
    exact valid'.exists_child.mpr (fed x c attached under) childless
  · intro x attached wanted
    rw [same] at wanted
    exact asked.wanted x (before x attached) wanted

theorem fed_bypassed (named : f.parent? id = some p) (relinked : Relinked f g (bypass f.parent? id q) down roots)
    (other : x ≠ id) (under : f.parent? c = some x) (instead : ∃ d, g.parent? d = some p) :
    ∃ d, g.parent? d = some x := by
  by_cases same : c = id
  · rw [same, named] at under
    cases under
    exact instead
  · refine ⟨c, ?_⟩
    rw [relinked.parent, bypass_of_apart same (by simp [under, other]), under]

theorem fed_exchanged (valid : f.WellFormed) (named : f.parent? id = some p)
    (relinked : Relinked f g (exchange f.parent? id p) down roots) (below : f.parent? q = some id)
    (under : f.parent? c = some x) : ∃ d, g.parent? d = some x := by
  have apart := valid.ne_parent named
  by_cases atNode : x = id
  · exact ⟨p, by rw [relinked.parent, exchange_parent apart, atNode]⟩
  by_cases atParent : x = p
  · have elsewhere : q ≠ p := by
      intro same
      exact valid.no_return (same ▸ below) (.parent named)
    exact ⟨q, by rw [relinked.parent, exchange_of_under (valid.ne_parent below) elsewhere below,
      atParent]⟩
  by_cases first : c = p
  · exact ⟨id, by rw [relinked.parent, exchange_self, ← first, under]⟩
  · refine ⟨c, ?_⟩
    have second : c ≠ id := by
      rintro rfl
      rw [named] at under
      exact atParent (Option.some.inj under).symm
    rw [relinked.parent, exchange_of_apart second first (by simp [under, atNode]), under]

theorem Move.asked (move : Move demand f t g) (valid : f.WellFormed) (asked : f.Asked demand mains) :
    g.Asked demand mains := by
  -- Nobody asks for a coercion, so that there is something below it.
  have below : ∀ id, f.isAttached id = true → (f.step id).isParse = true →
      ∃ c, f.parent? c = some id := by
    intro id attached parse
    apply valid.exists_child.mp
    intro childless
    have wanted := asked.tips id attached childless
    rw [wanted_of_parse parse] at wanted
    cases wanted
  cases move with
  | @drop id _ spare attached removed =>
    have wanted := asked.tips id attached spare.childless
    rw [spare.unasked] at wanted
    cases wanted
  | clear =>
    exact valid.sheds_cleared.asked valid valid.pruneEmptyRoots asked (fun _ => rfl)
      fun x c _ under => ⟨c, under⟩
  | @climb id p _ named attached parse low free swapped =>
    obtain ⟨valid', relinked⟩ :=
      of_ok (valid.swapWithParent named (valid.placed_of_attached named attached)) swapped
    obtain ⟨q, under⟩ := below id attached parse
    exact (valid.sheds_exchanged valid' named free relinked low).asked valid valid' asked
      (fun x => wanted_of_step (relinked.step x)) fun x c _ => fed_exchanged valid named relinked under
  | @meet id p _ named attached parse upper removed =>
    have merged := valid.mergeParse id p
    have parent := WellFormed.parent_mergeParse f id p
    have named' : (f.mergeParse id p).parent? id = some p := (parent id).trans named
    obtain ⟨valid', relinked⟩ := of_ok (merged.remove named') removed
    obtain ⟨q, under⟩ := below id attached parse
    have instead : g.parent? q = some p := by
      rw [relinked.parent, bypass_of_under (valid.ne_parent under) ((parent q).trans under)]
    have sheds := (valid.sheds_mergeParse id p).trans (merged.sheds_removed valid' named' relinked)
    refine sheds.asked valid valid' asked (fun x => ?_) fun x c attached' under => ?_
    · rw [wanted_of_step (relinked.step x), wanted_mergeParse]
    · have other : x ≠ id := by simpa using ((sheds.attached_iff x).mp attached').2
      exact fed_bypassed named' relinked other ((parent c).trans under) ⟨q, instead⟩
  | @join p kept twin _ attached found absorbed =>
    obtain ⟨apart, one, two, _⟩ := valid.twins_spec found
    obtain ⟨valid', _, relinked, _⟩ := of_ok (valid.absorb one two apart) absorbed
    have sheds := valid.sheds_absorbed valid' one two apart relinked
    have instead : g.parent? kept = some p := by
      have elsewhere : f.parent? kept ≠ some twin := by
        rw [one]
        intro same
        exact valid.ne_parent two (Option.some.inj same).symm
      rw [relinked.parent, bypass_of_apart apart elsewhere, one]
    refine sheds.asked valid valid' asked (fun x => wanted_of_step (relinked.step x))
      fun x c attached' under => ?_
    have other : x ≠ twin := by simpa using ((sheds.attached_iff x).mp attached').2
    exact fed_bypassed two relinked other under ⟨kept, instead⟩

theorem Moves.asked (moves : Moves demand f t g) (valid : f.WellFormed)
    (asked : f.Asked demand mains) : g.Asked demand mains := by
  induction moves with
  | none => exact asked
  | more move _ ih => exact ih (move.pays valid).valid (move.asked valid asked)

theorem WellFormed.asked_optimize (valid : f.WellFormed) (asked : f.Asked demand mains) {bound : Nat}
    (done : f.optimize demand bound = .ok (g, t)) : g.Asked demand mains := by
  obtain ⟨_, _, _, moves⟩ := valid.moves_rounds _ _ done
  exact moves.asked valid asked

end Viewflow.Flow.Forest
