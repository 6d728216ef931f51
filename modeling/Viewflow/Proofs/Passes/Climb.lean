import Viewflow.Proofs.Lowering.Requests
import Viewflow.Proofs.Passes.Optimize

namespace Viewflow.Flow.Forest

variable {f g : Forest} {demand : Demand} {inner : Boundary → Prop} {id p x : NodeId}

structure Climbed (demand : Demand) (ids : List NodeId) (f g : Forest) : Prop extends Keeps f g where
  strands : g.Strands demand.Spares
  attached : ∀ x, g.isAttached x = f.isAttached x
  others : ∀ x, x ∉ ids → (f.step x).isParse = true → g.parent? x = f.parent? x
  carries : Carries Step.isParse demand f g

namespace Climbed

variable {h : Forest} {ids ids' : List NodeId}

theorem refl (strands : f.Strands demand.Spares) (ids : List NodeId) : Climbed demand ids f f :=
  ⟨.refl f, strands, fun _ => rfl, fun _ _ _ => rfl, .refl _ _ _⟩

theorem trans (one : Climbed demand ids f g) (two : Climbed demand ids' g h) (more : ids ⊆ ids') :
    Climbed demand ids' f h where
  toKeeps := one.toKeeps.trans two.toKeeps
  strands := two.strands
  attached x := (two.attached x).trans (one.attached x)
  others x absent parse := by
    rw [two.others x absent ((one.step x).symm ▸ parse)]
    exact one.others x (fun member => absent (more member)) parse
  carries := one.carries.trans two.carries

end Climbed

namespace Strands

theorem not_parse_above (strands : f.Strands inner) (named : f.parent? id = some p)
    (parse : (f.step id).isParse = true) : (f.step p).isParse = false :=
  (strands.clear id p (.parent named) (strands.valid.ne_parent named).symm parse).1

theorem not_root_inside (strands : f.Strands inner) (inside : (f.step p).isSource = false) :
    p ∉ f.roots := by
  intro root
  rw [strands.rooted p root] at inside
  cases inside

theorem alone (strands : f.Strands inner) (named : f.parent? id = some p)
    (inside : (f.step p).isSource = false) : ∀ c, f.parent? c = some p → c = id :=
  fun c under => strands.single p c id inside under named

section Exchanged

variable {down : NodeId → List NodeId} (strands : f.Strands inner) (named : f.parent? id = some p)
  (parse : (f.step id).isParse = true) (inside : (f.step p).isSource = false)
  (relinked : Relinked f g (exchange f.parent? id p) down (f.roots.replace p id))
  (valid' : g.WellFormed)
include strands named inside relinked

theorem single_exchanged (parse : (f.step id).isParse = true) {q c d : NodeId}
    (plain : (f.step q).isSource = false) (one : g.parent? c = some q)
    (two : g.parent? d = some q) : c = d := by
  have noSource := Step.not_source_of_parse parse
  have high : f.parent? p ≠ some id := by
    intro under
    exact strands.valid.no_return under (.parent named)
  have same := strands.single q c d plain
  have left := strands.single q c p plain
  have right := strands.single q d p plain
  have below := strands.single id c d noSource
  have first := strands.single p c id inside
  have second := strands.single p d id inside
  rw [relinked.parent] at one two
  rcases exchange_cases one with ⟨_, _⟩ | ⟨_, _⟩ | ⟨_, _, ⟨_, _⟩ | ⟨_, _⟩⟩ <;>
    rcases exchange_cases two with ⟨_, _⟩ | ⟨_, _⟩ | ⟨_, _, ⟨_, _⟩ | ⟨_, _⟩⟩ <;>
    grind

include parse valid'

theorem exchanged : g.Strands inner := by
  have valid := strands.valid
  have low := strands.not_parse_above named parse
  refine ⟨valid', ?_, ?_, ?_, ?_, ?_⟩
  · intro x source
    rw [relinked.step] at source
    have other : x ≠ id := by
      rintro rfl
      simp [Step.not_source_of_parse parse] at source
    have elsewhere : x ≠ p := by
      rintro rfl
      simp [inside] at source
    rw [relinked.parent, exchange_top other elsewhere (strands.sources x source)]
  · intro r root
    rw [relinked.roots, List.replace_of_not_mem (strands.not_root_inside inside)] at root
    rw [relinked.step]
    exact strands.rooted r root
  · intro q c d plain one two
    rw [relinked.step] at plain
    exact strands.single_exchanged named inside relinked parse plain one two
  · intro x a above other coerces
    rw [relinked.step] at coerces ⊢
    rw [relinked.step]
    have elsewhere : x ≠ p := by
      rintro rfl
      simp [low] at coerces
    by_cases same : x = id
    · subst same
      rcases valid.above_climbed valid' named relinked above with wrong | ⟨q, upper, above⟩
      · exact absurd wrong other
      · exact strands.clear x a (.under named (.under upper above)) other coerces
    · have alone := strands.alone named inside
      have above' := (valid.above_exchanged valid' named alone relinked same elsewhere).mp above
      exact strands.clear x a above' other coerces
  · intro x q b edge output
    rw [relinked.step] at output
    rw [relinked.parent] at edge
    rcases exchange_cases edge with ⟨_, under⟩ | ⟨_, rfl⟩ | ⟨_, _, ⟨_, rfl⟩ | ⟨_, under⟩⟩
    · exact strands.inner p q b under output
    · rw [output] at parse
      cases parse
    · exact strands.inner id q b named output
    · exact strands.inner x q b under output

end Exchanged

theorem climbed {down : NodeId → List NodeId} (strands : f.Strands demand.Spares)
    (named : f.parent? id = some p) (parse : (f.step id).isParse = true)
    (inside : (f.step p).isSource = false) (valid' : g.WellFormed)
    (relinked : Relinked f g (exchange f.parent? id p) down (f.roots.replace p id)) :
    Climbed demand [id] f g := by
  have low := strands.not_parse_above named parse
  have roots := relinked.roots.trans (List.replace_of_not_mem (strands.not_root_inside inside))
  have carried : Carries notParse demand f g :=
    strands.valid.carries_exchanged valid' named relinked parse inside
  refine ⟨⟨relinked.step, fun _ root => roots ▸ root⟩,
    strands.exchanged named parse inside relinked valid', strands.valid.attached_same valid' named relinked,
    ?_, carried.delivers, carried.step, carried.source, ?_⟩
  · intro x other coerces
    have elsewhere : x ≠ p := by
      rintro rfl
      simp [low] at coerces
    have apart : f.parent? x ≠ some id := by
      intro under
      simp [strands.not_parse_above under coerces] at parse
    rw [relinked.parent, exchange_of_apart (List.ne_of_not_mem_cons other) elsewhere apart]
  · intro x delivers
    have elsewhere : x ≠ p := by
      rintro rfl
      obtain ⟨b, output, wanted⟩ := delivers.wanted
      have spared : demand.isRequired b.name = false := strands.inner id x b named output
      simp [spared] at wanted
    have alone := strands.alone named inside
    have rest := strands.valid.lineage_back valid' named alone relinked elsewhere
    rw [filter_route_skip low relinked.steps rest]
    exact .refl _

theorem source_of_blocks (strands : f.Strands inner) (named : f.parent? id = some p)
    (parse : (f.step id).isParse = true) (blocked : f.blocks p id = true) :
    (f.step p).isSource = true := by
  apply Decidable.byContradiction
  intro other
  have inside := Bool.eq_false_iff.mpr other
  have free := (strands.clear id p (.parent named) (strands.valid.ne_parent named).symm parse).2
  have alone : (f.children p).length ≤ 1 := by
    have distinct := strands.valid.children_nodup (p := p)
    cases children : f.children p with
    | nil => simp
    | cons c rest =>
      cases rest with
      | nil => simp
      | cons d rest =>
        rw [children] at distinct
        have one : f.parent? c = some p := strands.valid.pointsBack p c (by simp [children])
        have two : f.parent? d = some p := strands.valid.pointsBack p d (by simp [children])
        have same := strands.single p c d inside one two
        simp [same] at distinct
  simp only [blocks, inside, free, Bool.false_or, Bool.not_true, Bool.or_false,
    decide_eq_true_eq] at blocked
  omega

theorem hoist (strands : f.Strands demand.Spares) (attached : f.isAttached id = true)
    (parse : (f.step id).isParse = true) (fuel : Nat) (n : HoistCount)
    (enough : (f.lineage id).length ≤ fuel) :
    ∃ g n', Forest.hoist id fuel f n = .ok (g, n') ∧ Climbed demand [id] f g ∧
      ∃ p, g.parent? id = some p ∧ (g.step p).isSource = true := by
  induction fuel generalizing f n with
  | zero =>
    have line := strands.valid.lineage_line id
    generalize f.lineage id = l at line enough
    cases line <;> simp at enough
  | succ fuel ih =>
    cases named : f.parent? id with
    | none =>
      have source := strands.rooted id (strands.valid.root_of_attached_top attached named)
      simp [Step.not_source_of_parse parse] at source
    | some p =>
      have low := strands.not_parse_above named parse
      by_cases blocked : f.blocks p id = true
      · refine ⟨f, n, ?_, .refl strands _, p, named, strands.source_of_blocks named parse blocked⟩
        simp [Forest.hoist, named, low, blocked]
      · have inside := inside_of_free blocked
        obtain ⟨g, swapped, valid', relinked⟩ := strands.valid.swapWithParent named
          (strands.valid.placed_of_attached named attached)
        have climbed := strands.climbed named parse inside valid' relinked
        have shorter : (g.lineage id).length ≤ fuel := by
          have less := strands.valid.lineage_climbed valid' named relinked
          omega
        obtain ⟨h, n', rest, climbed', done⟩ := ih climbed.strands
          ((climbed.attached id).trans attached) ((relinked.step id).symm ▸ parse)
          { n with swapped := n.swapped + 1 } shorter
        refine ⟨h, n', ?_, climbed.trans climbed' fun _ member => member, done⟩
        simp only [Forest.hoist, named, low, blocked, swapped, bind_ok]
        exact rest

theorem hoistEach (strands : f.Strands demand.Spares) (n : HoistCount) (ids : List NodeId)
    (coerce : ∀ id ∈ ids, f.isAttached id = true ∧ (f.step id).isParse = true) :
    ∃ g n', ids.foldlM Forest.hoistNext (f, n) = .ok (g, n') ∧ Climbed demand ids f g ∧
      ∀ id ∈ ids, ∃ p, g.parent? id = some p ∧ (g.step p).isSource = true := by
  induction ids generalizing f n with
  | nil => exact ⟨f, n, rfl, .refl strands _, by simp⟩
  | cons id ids ih =>
    obtain ⟨attached, parse⟩ := coerce id (List.mem_cons_self ..)
    obtain ⟨g, m, done, climbed, p, named, source⟩ :=
      strands.hoist attached parse f.size n
        (strands.valid.lineage_length (strands.valid.attached_known attached))
    have coerce' : ∀ x ∈ ids, g.isAttached x = true ∧ (g.step x).isParse = true := by
      intro x member
      rw [climbed.attached, climbed.step]
      exact coerce x (List.mem_cons_of_mem _ member)
    obtain ⟨h, n', rest, climbed', grounded⟩ := ih climbed.strands m coerce'
    refine ⟨h, n', ?_, ?_, ?_⟩
    · rw [List.foldlM_cons, Forest.hoistNext, if_pos attached, done]
      exact rest
    · have first : Climbed demand (id :: ids) f g :=
        ⟨climbed.toKeeps, climbed.strands, climbed.attached, fun x absent =>
          climbed.others x fun member => absent (List.mem_singleton.mp member ▸ List.mem_cons_self ..),
          climbed.carries⟩
      have later : Climbed demand (id :: ids) g h :=
        ⟨climbed'.toKeeps, climbed'.strands, climbed'.attached, fun x absent =>
          climbed'.others x fun member => absent (List.mem_cons_of_mem _ member), climbed'.carries⟩
      exact first.trans later fun _ member => member
    · intro x member
      by_cases again : x ∈ ids
      · exact grounded x again
      · rcases List.mem_cons.mp member with rfl | later
        · refine ⟨p, (climbed'.others x again ((climbed.step x).symm ▸ parse)).trans named, ?_⟩
          rw [climbed'.step, source]
        · exact absurd later again

theorem moveParseUp (strands : f.Strands demand.Spares) :
    ∃ g n, f.moveParseUp = .ok (g, n) ∧ g.Settled ∧ Carries Step.isParse demand f g ∧
      Keeps f g := by
  have coerce : ∀ id, id ∈ f.parses ↔ f.isAttached id = true ∧ (f.step id).isParse = true := by
    intro id
    unfold parses
    rw [List.mem_filter, strands.valid.mem_walkAll_iff]
  obtain ⟨g, n, done, climbed, grounded⟩ :=
    strands.hoistEach ⟨0, 0⟩ f.parses fun id member => (coerce id).mp member
  refine ⟨g, n, done, ⟨climbed.strands.valid, climbed.strands.sources, ?_⟩, climbed.carries,
    climbed.toKeeps⟩
  intro id p attached parse named
  rw [climbed.attached] at attached
  rw [climbed.step] at parse
  obtain ⟨q, named', source⟩ := grounded id ((coerce id).mpr ⟨attached, parse⟩)
  rw [named] at named'
  cases named'
  exact source

end Strands

namespace Settled

theorem hoistNext (settled : f.Settled) (n : HoistCount) (parse : (f.step id).isParse = true) :
    Forest.hoistNext (f, n) id = .ok (f, n) := by
  unfold Forest.hoistNext
  by_cases attached : f.isAttached id = true
  · rw [if_pos attached]
    cases f.size with
    | zero => rfl
    | succ fuel =>
      cases named : f.parent? id with
      | none => simp [Forest.hoist, named]
      | some p =>
        have source := settled.grounded id p attached parse named
        have other := Step.not_parse_of_source source
        simp [Forest.hoist, named, other, blocks, source]
  · rw [if_neg attached]

theorem moveParseUp (settled : f.Settled) : f.moveParseUp = .ok (f, ⟨0, 0⟩) := by
  have each : ∀ ids : List NodeId, (∀ id ∈ ids, (f.step id).isParse = true) →
      ids.foldlM Forest.hoistNext (f, ⟨0, 0⟩) = .ok (f, ⟨0, 0⟩) := by
    intro ids
    induction ids with
    | nil => exact fun _ => rfl
    | cons id ids ih =>
      intro parses
      rw [List.foldlM_cons, settled.hoistNext _ (parses id (List.mem_cons_self ..)), bind_ok]
      exact ih fun x member => parses x (List.mem_cons_of_mem _ member)
  exact each f.parses fun _ member => (List.mem_filter.mp member).2

theorem round (settled : f.Settled) (demand : Demand) :
    ∃ g tally, f.round demand = .ok (g, tally) ∧ g.Settled ∧ Carries Step.isParse demand f g ∧
      Keeps f g := by
  obtain ⟨g₁, removed, pruned, valid₁, carried₁, thinned⟩ := settled.valid.removeUnused demand
  have settled₁ := thinned.settled settled valid₁
  obtain ⟨g₂, merged, joined, _, carried₂, kept, settles⟩ := valid₁.mergeSiblings demand
  refine ⟨g₂, ⟨removed, 0, merged, 1⟩, ?_, settles settled₁,
    (carried₁.narrow fun _ _ => Step.isParse_of_same).trans
      (carried₂.narrow fun _ _ => Step.isParse_of_same), thinned.toKeeps.trans kept⟩
  unfold Forest.round
  simp only [pruned, settled₁.moveParseUp, joined, bind_ok, Nat.zero_add]
  rfl

theorem rounds (settled : f.Settled) (demand : Demand) (bound : Nat) (total : Tally) :
    ∃ g tally, Forest.rounds demand bound f total = .ok (g, tally) ∧ g.Settled ∧
      Carries Step.isParse demand f g ∧ Keeps f g := by
  induction bound generalizing f total with
  | zero => exact ⟨f, total, rfl, settled, .refl _ _ _, .refl f⟩
  | succ bound ih =>
    obtain ⟨g, once, done, settled', carried, kept⟩ := settled.round demand
    by_cases still : once.changes = 0
    · refine ⟨g, total.add once, ?_, settled', carried, kept⟩
      simp only [Forest.rounds, done, bind_ok, still, if_true]
      rfl
    · obtain ⟨h, tally, rest, settled'', carried', kept'⟩ := ih settled' (total.add once)
      refine ⟨h, tally, ?_, settled'', carried.trans carried', kept.trans kept'⟩
      simp only [Forest.rounds, done, bind_ok, still, if_false]
      exact rest

end Settled

-- One round settles the strands, and the later ones leave them settled.
theorem Strands.optimize (strands : f.Strands demand.Spares) (bound : Nat) :
    ∃ g tally, f.optimize demand bound = .ok (g, tally) ∧ g.Settled ∧
      Carries Step.isParse demand f g ∧ Keeps f g := by
  obtain ⟨g₁, removed, pruned, valid₁, carried₁, thinned⟩ := strands.valid.removeUnused demand
  obtain ⟨g₂, climbs, climbed, settled₂, carried₂, kept₂⟩ := (thinned.strands strands valid₁).moveParseUp
  obtain ⟨g₃, merged, joined, _, carried₃, kept₃, settles⟩ := settled₂.valid.mergeSiblings demand
  have once : f.round demand =
      .ok (g₃, ⟨removed, climbs.swapped, climbs.merged + merged, 1⟩) := by
    unfold Forest.round
    simp only [pruned, climbed, joined, bind_ok]
    rfl
  have carried := ((carried₁.narrow fun _ _ => Step.isParse_of_same).trans carried₂).trans
    (carried₃.narrow fun _ _ => Step.isParse_of_same)
  have kept := (thinned.toKeeps.trans kept₂).trans kept₃
  obtain ⟨bound, first⟩ : ∃ n, max bound 1 = n + 1 := ⟨max bound 1 - 1, by omega⟩
  unfold Forest.optimize
  rw [first]
  simp only [Forest.rounds, once, bind_ok]
  split
  · exact ⟨g₃, _, rfl, settles settled₂, carried, kept⟩
  · obtain ⟨g, tally, rest, settled, carried', kept'⟩ := (settles settled₂).rounds demand bound _
    exact ⟨g, tally, rest, settled, carried.trans carried', kept.trans kept'⟩

end Viewflow.Flow.Forest
