import Viewflow.Flow.Hoist
import Viewflow.Proofs.Forest.Descent
import Viewflow.Proofs.Forest.Growth
import Viewflow.Proofs.Forest.Route

namespace Viewflow.Flow.Forest

variable {f g : Forest} {demand : Demand} {id into p x : NodeId} {step : Step}

def SameParses (f g : Forest) : Prop := ∀ x, (g.step x).isParse = (f.step x).isParse

theorem SameParses.trans {h : Forest} (one : SameParses f g) (two : SameParses g h) :
    SameParses f h := fun x => (two x).trans (one x)

theorem mergeParse_cases (f : Forest) (id into : NodeId) :
    f.mergeParse id into = f ∨ ∃ upper merged, f.step into = .parse upper ∧
      f.mergeParse id into = f.setStep into (.parse merged) := by
  unfold mergeParse
  split
  · next lower upper _ found => exact .inr ⟨upper, mergedCoercions upper lower, found, rfl⟩
  · exact .inl rfl

theorem roots_mergeParse (f : Forest) (id into : NodeId) : (f.mergeParse id into).roots = f.roots := by
  rcases mergeParse_cases f id into with same | ⟨_, _, _, changed⟩
  · rw [same]
  · rw [changed]
    rfl

theorem step_setStep_of_parse {upper : Keyed String Coercion} (merged : Keyed String Coercion)
    (found : f.step into = .parse upper) (x : NodeId) :
    (f.setStep into (.parse merged)).step x = f.step x ∨
      (f.step x).isParse = true ∧ ((f.setStep into (.parse merged)).step x).isParse = true := by
  rw [Forest.step, node_setStep]
  split
  · next here => exact .inr ⟨by rw [here.1, found]; rfl, rfl⟩
  · exact .inl rfl

theorem mergeParse_sameParses (f : Forest) (id into : NodeId) :
    SameParses f (f.mergeParse id into) := by
  intro x
  rcases mergeParse_cases f id into with same | ⟨upper, merged, found, changed⟩
  · rw [same]
  · rw [changed]
    rcases step_setStep_of_parse merged found x with same | ⟨before, after⟩
    · rw [same]
    · rw [before, after]

namespace WellFormed

theorem mergeParse (valid : f.WellFormed) (id into : NodeId) :
    (f.mergeParse id into).WellFormed := by
  rcases mergeParse_cases f id into with same | ⟨_, _, _, changed⟩
  · rw [same]
    exact valid
  · rw [changed]
    exact valid.setStep into _

theorem parent_mergeParse (f : Forest) (id into x : NodeId) :
    (f.mergeParse id into).parent? x = f.parent? x := by
  rcases mergeParse_cases f id into with same | ⟨_, _, _, changed⟩
  · rw [same]
  · rw [changed, parent_setStep]

theorem children_mergeParse (f : Forest) (id into x : NodeId) :
    (f.mergeParse id into).children x = f.children x := by
  rcases mergeParse_cases f id into with same | ⟨_, _, _, changed⟩
  · rw [same]
  · rw [changed, children_setStep]

theorem lineage_of_parents (valid : f.WellFormed) (valid' : g.WellFormed)
    (parents : g.parent? = f.parent?) (x : NodeId) : g.lineage x = f.lineage x := by
  have line := valid.lineage_line x
  rw [← parents] at line
  exact valid'.lineage_of_line line

theorem carries_of_same_edges (valid : f.WellFormed) (valid' : g.WellFormed)
    (parents : g.parent? = f.parent?) (roots : g.roots = f.roots)
    (kept : ∀ x, (f.step x).isParse = false → g.step x = f.step x) (parses : SameParses f g) :
    Carries notParse demand f g := by
  have lineage := valid.lineage_of_parents valid' parents
  have top : ∀ x, g.top x = f.top x := by
    intro x
    unfold Forest.top
    rw [lineage]
  refine ⟨?_, fun x delivers => kept x delivers.not_parse, ?_, ?_⟩
  · intro x delivers
    apply delivers.moved (kept x delivers.not_parse)
    · rw [parents]
      exact delivers.placed
    · have attached := delivers.attached
      unfold isAttached at attached ⊢
      rw [top, roots]
      exact attached
  · intro x _ isSource
    exact ⟨top x, kept _ (Step.not_parse_of_source isSource)⟩
  · intro x _
    have same : ∀ a ∈ (f.lineage x).filter fun a => notParse (f.step a), g.step a = f.step a := by
      intro a member
      have shown := (List.mem_filter.mp member).2
      exact kept a (by simpa [notParse] using shown)
    have seen : ∀ a, notParse (g.step a) = notParse (f.step a) := by
      intro a
      simp [notParse, parses a]
    rw [filter_route, filter_route, lineage]
    simp only [seen]
    rw [List.map_congr_left same]
    exact .refl _

theorem carries_mergeParse (valid : f.WellFormed) (id into : NodeId) :
    Carries notParse demand f (f.mergeParse id into) := by
  have parses := mergeParse_sameParses f id into
  rcases mergeParse_cases f id into with same | ⟨upper, merged, found, changed⟩
  · rw [same]
    exact .refl notParse demand f
  · rw [changed] at parses ⊢
    have parents := funext (parent_setStep f into (.parse merged))
    refine valid.carries_of_same_edges (valid.setStep into _) parents rfl ?_ parses
    intro x other
    rcases step_setStep_of_parse merged found x with same | ⟨before, _⟩
    · exact same
    · simp [before] at other

section Exchange

variable {down : NodeId → List NodeId} {roots : List NodeId} (valid : f.WellFormed)
  (valid' : g.WellFormed) (named : f.parent? id = some p)
include valid valid' named

omit valid' in
theorem under_exchanged (relinked : Relinked f g (exchange f.parent? id p) down roots) :
    g.parent? p = some id :=
  (relinked.parent p).trans (exchange_parent (valid.ne_parent named))

theorem lineage_exchanged (relinked : Relinked f g (exchange f.parent? id p) down roots)
    (other : x ≠ id) : (g.lineage x).filter (· ≠ id) = (f.lineage x).filter (· ≠ id) := by
  have high : f.parent? p ≠ some id := by
    intro under
    exact valid.no_return under (.parent named)
  obtain ⟨l, line, rest⟩ := (valid.lineage_line x).exchanged named (valid.ne_parent named) high
  rw [if_neg other, ← relinked.parents] at line
  rwa [valid'.lineage_of_line line]

theorem above_exchanged_of_ne {a : NodeId}
    (relinked : Relinked f g (exchange f.parent? id p) down roots) (other : x ≠ id) (apart : a ≠ id) :
    Above g.parent? a x ↔ Above f.parent? a x := by
  have members := congrArg (a ∈ ·) (valid.lineage_exchanged valid' named relinked other)
  rw [← valid.mem_lineage_iff, ← valid'.mem_lineage_iff]
  simpa [apart] using members

theorem above_climbed {a : NodeId} (relinked : Relinked f g (exchange f.parent? id p) down roots)
    (above : Above g.parent? a id) :
    a = id ∨ ∃ q, f.parent? p = some q ∧ Above f.parent? a q := by
  have here : g.parent? id = f.parent? p := (relinked.parent id).trans exchange_self
  cases upper : f.parent? p with
  | none => exact .inl (above.eq_of_top (here.trans upper))
  | some q =>
    rcases above.cases_parent (here.trans upper) with same | higher
    · exact .inl same
    · have other : q ≠ id := by
        rintro rfl
        exact valid.no_return upper (.parent named)
      have apart : a ≠ id := by
        intro same
        exact valid'.no_return (here.trans upper) (same ▸ higher)
      exact .inr ⟨q, rfl, (valid.above_exchanged_of_ne valid' named relinked other apart).mp higher⟩

theorem lineage_climbed (relinked : Relinked f g (exchange f.parent? id p) down roots) :
    (g.lineage id).length < (f.lineage id).length := by
  have listed : p ∈ f.lineage id := valid.mem_lineage_iff.mpr (.parent named)
  have within : g.lineage id ⊆ (f.lineage id).erase p := by
    intro a member
    rw [(valid.lineage_nodup id).mem_erase_iff]
    have above := valid'.mem_lineage_iff.mp member
    rcases valid.above_climbed valid' named relinked above with rfl | ⟨q, upper, above⟩
    · exact ⟨valid.ne_parent named, valid.mem_lineage_iff.mpr .here⟩
    · refine ⟨?_, valid.mem_lineage_iff.mpr (.under named (.under upper above))⟩
      rintro rfl
      exact valid.no_return upper above
  have bound := (valid'.lineage_nodup id).length_le_of_subset within
  have some := List.length_pos_of_mem listed
  rw [List.length_erase_of_mem listed] at bound
  omega

section Alone

variable (alone : ∀ c, f.parent? c = some p → c = id)
  (relinked : Relinked f g (exchange f.parent? id p) down roots)
include alone relinked

omit valid' in
theorem exchanged_back : Relinked g f (exchange g.parent? p id) f.children f.roots where
  size := relinked.size.symm
  name x := (relinked.name x).symm
  step x := (relinked.step x).symm
  children _ := rfl
  roots := rfl
  parent x := by
    have apart := valid.ne_parent named
    by_cases atParent : x = p
    · rw [atParent, exchange_self, relinked.parent, exchange_self]
    · by_cases atNode : x = id
      · rw [atNode, exchange_parent (Ne.symm apart), named]
      · have elsewhere : f.parent? x ≠ some p := fun under => atNode (alone x under)
        by_cases under : f.parent? x = some id
        · have edge := (relinked.parent x).trans (exchange_of_under atNode atParent under)
          rw [exchange_of_under atParent atNode edge, under]
        · have edge := (relinked.parent x).trans (exchange_of_apart atNode atParent under)
          rw [exchange_of_apart atParent atNode (by rwa [edge]), edge]

theorem lineage_back (other : x ≠ p) :
    (g.lineage x).filter (· ≠ p) = (f.lineage x).filter (· ≠ p) := by
  have named' := valid.under_exchanged named relinked
  exact (valid'.lineage_exchanged valid named' (valid.exchanged_back named alone relinked) other).symm

theorem above_back {a : NodeId} (other : x ≠ p) (apart : a ≠ p) :
    Above g.parent? a x ↔ Above f.parent? a x := by
  have named' := valid.under_exchanged named relinked
  have back := valid.exchanged_back named alone relinked
  exact (valid'.above_exchanged_of_ne valid named' back other apart).symm

theorem above_exchanged {a : NodeId} (other : x ≠ id) (elsewhere : x ≠ p) :
    Above g.parent? a x ↔ Above f.parent? a x := by
  by_cases same : a = p
  · have apart : a ≠ id := same ▸ (valid.ne_parent named).symm
    exact valid.above_exchanged_of_ne valid' named relinked other apart
  · exact valid.above_back valid' named alone relinked elsewhere same

end Alone

variable (relinked : Relinked f g (exchange f.parent? id p) down (f.roots.replace p id))
include relinked

theorem attached_exchanged (other : x ≠ id) (attached : f.isAttached x = true) :
    g.isAttached x = true := by
  obtain ⟨r, root, above⟩ := valid.isAttached_iff.mp attached
  have apart : r ≠ id := fun same => valid.not_root named (same ▸ root)
  have above' := (valid.above_exchanged_of_ne valid' named relinked other apart).mpr above
  have under := valid.under_exchanged named relinked
  rw [valid'.isAttached_iff, relinked.roots]
  by_cases top : r = p
  · subst top
    refine ⟨id, ?_, (Above.parent under).trans above'⟩
    exact (mem_replace valid.rootsDistinct).mpr (.inl ⟨rfl, root⟩)
  · refine ⟨r, ?_, above'⟩
    exact (mem_replace valid.rootsDistinct).mpr (.inr ⟨top, root⟩)

theorem attached_same (x : NodeId) : g.isAttached x = f.isAttached x := by
  have apart := valid.ne_parent named
  rw [Bool.eq_iff_iff]
  constructor
  · apply valid'.attached_back
    · intro x q edge higher
      rw [relinked.parent] at edge
      rcases exchange_cases edge with ⟨rfl, under⟩ | ⟨rfl, rfl⟩ | ⟨_, _, ⟨under, rfl⟩ | ⟨_, under⟩⟩
      · exact (valid.attached_iff_parent named).mpr ((valid.attached_iff_parent under).mpr higher)
      · exact (valid.attached_iff_parent named).mp higher
      · exact (valid.attached_iff_parent under).mpr ((valid.attached_iff_parent named).mpr higher)
      · exact (valid.attached_iff_parent under).mpr higher
    · intro r root
      rw [relinked.roots, mem_replace valid.rootsDistinct] at root
      rcases root with ⟨rfl, root⟩ | ⟨_, root⟩
      · exact (valid.attached_iff_parent named).mpr (valid.attached_of_root root)
      · exact valid.attached_of_root root
  · intro attached
    by_cases same : x = id
    · have under := valid.under_exchanged named relinked
      have higher := (valid.attached_iff_parent named).mp (same ▸ attached)
      rw [same, ← valid'.attached_iff_parent under]
      exact valid.attached_exchanged valid' named relinked (Ne.symm apart) higher
    · exact valid.attached_exchanged valid' named relinked same attached

theorem carries_exchanged (parse : (f.step id).isParse = true)
    (inside : (f.step p).isSource = false) : Carries notParse demand f g := by
  have other : ∀ x, f.Delivers demand x → x ≠ id := by
    rintro x delivers rfl
    rw [delivers.not_parse] at parse
    cases parse
  refine ⟨?_, fun x _ => relinked.step x, ?_, ?_⟩
  · intro x delivers
    apply delivers.moved (relinked.step x)
    · rw [relinked.parent]
      exact exchange_isSome (other x delivers) delivers.placed
    · exact valid.attached_exchanged valid' named relinked (other x delivers) delivers.attached
  · intro x delivers isSource
    obtain ⟨higher, orphan⟩ := valid.top_spec x
    have apart : f.top x ≠ id := by
      intro same
      rw [same, named] at orphan
      cases orphan
    have elsewhere : f.top x ≠ p := by
      intro same
      rw [same, inside] at isSource
      cases isSource
    have higher' := (valid.above_exchanged_of_ne valid' named relinked (other x delivers) apart).mpr higher
    refine ⟨valid'.top_eq higher' ?_, relinked.step _⟩
    rw [relinked.parent, exchange_top apart elsewhere orphan]
  · intro x delivers
    have hidden : notParse (f.step id) = false := by simp [notParse, parse]
    have rest := valid.lineage_exchanged valid' named relinked (other x delivers)
    rw [filter_route_skip hidden relinked.steps rest]
    exact .refl _

end Exchange
end WellFormed

theorem inside_of_free (free : ¬ f.blocks p id = true) : (f.step p).isSource = false := by
  rw [Bool.eq_false_iff]
  intro source
  apply free
  simp [blocks, source]

namespace WellFormed

theorem only_child (valid : f.WellFormed) (named : f.parent? id = some p)
    (free : f.blocks p id = false) (under : f.parent? x = some p) : x = id := by
  simp only [blocks, Bool.or_eq_false_iff, decide_eq_false_iff_not, Nat.not_lt] at free
  have one := valid.mem_children_iff.mpr named
  have other := valid.mem_children_iff.mpr under
  obtain ⟨c, only⟩ := List.length_eq_one_iff.mp
    (Nat.le_antisymm free.1.2 (List.length_pos_of_mem one))
  rw [only, List.mem_singleton] at one other
  rw [other, one]

theorem placed_of_attached (valid : f.WellFormed) (named : f.parent? id = some p)
    (attached : f.isAttached id = true) : (f.parent? p).isSome ∨ p ∈ f.roots := by
  have higher := (valid.attached_iff_parent named).mp attached
  cases top : f.parent? p with
  | some _ => exact .inl rfl
  | none => exact .inr (valid.root_of_attached_top higher top)

theorem merged (valid : f.WellFormed) (demand : Demand) (named : f.parent? id = some p)
    (parse : (f.step id).isParse = true) :
    ∃ g, (f.mergeParse id p).remove id = .ok g ∧ g.WellFormed ∧ SameParses f g ∧
      Carries notParse demand f g := by
  have merged := valid.mergeParse id p
  have parses := mergeParse_sameParses f id p
  have named' : (f.mergeParse id p).parent? id = some p := by rw [parent_mergeParse, named]
  have hidden : notParse ((f.mergeParse id p).step id) = false := by simp [notParse, parses id, parse]
  have spared : ¬ (f.mergeParse id p).Delivers demand id := by
    intro delivers
    have shown := delivers.not_parse
    rw [parses, parse] at shown
    cases shown
  obtain ⟨g, removed, valid', relinked⟩ := merged.remove named'
  refine ⟨g, removed, valid', ?_, (valid.carries_mergeParse id p).trans ?_⟩
  · intro x
    rw [relinked.step, parses]
  · exact merged.carries_removed valid' named' relinked spared (.inr hidden)

theorem exchanged (valid : f.WellFormed) (demand : Demand) (named : f.parent? id = some p)
    (attached : f.isAttached id = true) (parse : (f.step id).isParse = true)
    (inside : (f.step p).isSource = false) :
    ∃ g, f.swapWithParent id = .ok g ∧ g.WellFormed ∧ g.isAttached id = true ∧ SameParses f g ∧
      Carries notParse demand f g := by
  obtain ⟨g, swapped, valid', relinked⟩ :=
    valid.swapWithParent named (valid.placed_of_attached named attached)
  refine ⟨g, swapped, valid', (valid.attached_same valid' named relinked id).trans attached, ?_,
    valid.carries_exchanged valid' named relinked parse inside⟩
  intro x
  rw [relinked.step]

-- One change of places after the other, until something is in the way.
theorem hoist (valid : f.WellFormed) (demand : Demand) (attached : f.isAttached id = true)
    (parse : (f.step id).isParse = true) (fuel : Nat) (n : HoistCount) :
    ∃ g n', Forest.hoist id fuel f n = .ok (g, n') ∧ g.WellFormed ∧ SameParses f g ∧
      Carries notParse demand f g := by
  induction fuel generalizing f n with
  | zero => exact ⟨f, n, rfl, valid, fun _ => rfl, .refl notParse demand f⟩
  | succ fuel ih =>
    have stays : ∃ g n', Except.ok (f, n) = (.ok (g, n') : Except Fault (Forest × HoistCount)) ∧
        g.WellFormed ∧ SameParses f g ∧ Carries notParse demand f g :=
      ⟨f, n, rfl, valid, fun _ => rfl, .refl notParse demand f⟩
    unfold Forest.hoist
    cases named : f.parent? id with
    | none => exact stays
    | some p =>
      by_cases meets : (f.step p).isParse = true
      · obtain ⟨g, removed, valid', parses, carried⟩ := valid.merged demand named parse
        refine ⟨g, { n with merged := n.merged + 1 }, ?_, valid', parses, carried⟩
        simp only [meets, if_true, removed, bind_ok]
        rfl
      · by_cases blocked : f.blocks p id = true
        · simp only [meets, blocked, if_true, Bool.false_eq_true, if_false]
          exact stays
        · obtain ⟨g, swapped, valid', attached', parses, carried⟩ :=
            valid.exchanged demand named attached parse (inside_of_free blocked)
          obtain ⟨h, n', rest, valid'', parses', carried'⟩ := ih valid' attached'
            ((parses id).trans parse) { n with swapped := n.swapped + 1 }
          refine ⟨h, n', ?_, valid'', parses.trans parses', carried.trans carried'⟩
          simp only [meets, blocked, Bool.false_eq_true, if_false, swapped, bind_ok]
          exact rest

-- A coercion is at the top, or something is in its way, before the fuel is used up.
theorem hoist_enough (valid : f.WellFormed) (attached : f.isAttached id = true)
    (parse : (f.step id).isParse = true) (fuel more : Nat) (n : HoistCount)
    (enough : (f.lineage id).length ≤ fuel) :
    Forest.hoist id (fuel + more) f n = Forest.hoist id fuel f n := by
  induction fuel generalizing f n with
  | zero =>
    have self : id ∈ f.lineage id := valid.mem_lineage_iff.mpr .here
    have some := List.length_pos_of_mem self
    omega
  | succ fuel ih =>
    rw [Nat.add_right_comm]
    unfold Forest.hoist
    cases named : f.parent? id with
    | none => rfl
    | some p =>
      by_cases meets : (f.step p).isParse = true
      · simp only [meets, if_true]
      · by_cases blocked : f.blocks p id = true
        · simp only [meets, blocked, if_true, Bool.false_eq_true, if_false]
        · have placed := valid.placed_of_attached named attached
          obtain ⟨g, swapped, valid', relinked⟩ := valid.swapWithParent named placed
          have shorter := valid.lineage_climbed valid' named relinked
          have attached' := (valid.attached_same valid' named relinked id).trans attached
          simp only [meets, blocked, Bool.false_eq_true, if_false, swapped, bind_ok]
          exact ih valid' attached' ((relinked.step id).symm ▸ parse) _ (by omega)

theorem hoistNext (valid : f.WellFormed) (demand : Demand) (parse : (f.step id).isParse = true)
    (n : HoistCount) :
    ∃ g n', Forest.hoistNext (f, n) id = .ok (g, n') ∧ g.WellFormed ∧ SameParses f g ∧
      Carries notParse demand f g := by
  by_cases attached : f.isAttached id = true
  · unfold Forest.hoistNext
    rw [if_pos attached]
    exact valid.hoist demand attached parse f.size n
  · unfold Forest.hoistNext
    rw [if_neg attached]
    exact ⟨f, n, rfl, valid, fun _ => rfl, .refl notParse demand f⟩

theorem hoistEach (valid : f.WellFormed) (demand : Demand) (n : HoistCount) (ids : List NodeId)
    (parses : ∀ id ∈ ids, (f.step id).isParse = true) :
    ∃ g n', ids.foldlM Forest.hoistNext (f, n) = .ok (g, n') ∧ g.WellFormed ∧
      Carries notParse demand f g := by
  induction ids generalizing f n with
  | nil => exact ⟨f, n, rfl, valid, .refl notParse demand f⟩
  | cons id ids ih =>
    obtain ⟨g, m, done, valid', kept, carried⟩ := valid.hoistNext demand
      (parses id (List.mem_cons_self ..)) n
    have parses' : ∀ x ∈ ids, (g.step x).isParse = true := fun x member =>
      (kept x).trans (parses x (List.mem_cons_of_mem _ member))
    obtain ⟨h, n', rest, valid'', carried'⟩ := ih valid' m parses'
    refine ⟨h, n', ?_, valid'', carried.trans carried'⟩
    rw [List.foldlM_cons, done]
    exact rest

theorem moveParseUp (valid : f.WellFormed) (demand : Demand) :
    ∃ g n, f.moveParseUp = .ok (g, n) ∧ g.WellFormed ∧ Carries notParse demand f g :=
  valid.hoistEach demand ⟨0, 0⟩ f.parses fun _ member => (List.mem_filter.mp member).2

end WellFormed
end Viewflow.Flow.Forest
