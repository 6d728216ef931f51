import Viewflow.Proofs.Emission.Described
import Viewflow.Proofs.Emission.Names

namespace Viewflow.Flow.Forest
open Output (Dataset Recipe Transform Reads)

variable {f : Forest} {demand : Demand} {id : NodeId} {e e' e'' : Emission} {r : Recipe}
  {nodes nodes' owners ids ids' : List NodeId} {datasets : List Dataset}
  {owner : String → List NodeId} {name source : String} {transforms : List Transform}

structure Holds (f : Forest) (r : Recipe) (nodes : List NodeId) : Prop where
  transforms : r.transforms = nodes.flatMap fun x => (f.step x).transforms
  bears : ∀ x ∈ nodes, f.bears x = true

theorem Holds.nil (empty : r.transforms = []) : Holds f r [] := ⟨empty, by simp⟩

theorem Holds.eq_nil (holds : Holds f r nodes) (empty : r.transforms = []) : nodes = [] := by
  cases nodes with
  | nil => rfl
  | cons x rest =>
    have some := holds.bears x (List.mem_cons_self ..)
    have all := holds.transforms
    rw [empty, List.flatMap_cons, eq_comm, List.append_eq_nil_iff] at all
    simp [Forest.bears, all.1] at some

theorem Holds.followedBy (holds : Holds f r nodes) (id : NodeId) :
    Holds f (r.followedBy (f.step id).transforms) (nodes ++ [id].filter f.bears) := by
  refine ⟨?_, ?_⟩
  · unfold Recipe.followedBy
    rw [holds.transforms, List.flatMap_append]
    cases bearing : f.bears id with
    | true => simp [bearing]
    | false =>
      have silent : (f.step id).transforms = [] := by simpa [Forest.bears] using bearing
      simp [bearing, silent]
  · intro x member
    rcases List.mem_append.mp member with old | new
    · exact holds.bears x old
    · exact (List.mem_filter.mp new).2

structure Piece where
  dataset : Dataset
  nodes : List NodeId

structure Adds (f : Forest) (e e' : Emission) (log : List Piece) (bound : List (NodeId × String)) :
    Prop where
  datasets : e'.datasets = e.datasets ++ log.map (·.dataset)
  bound : e'.bound = e.bound ++ bound
  holds : ∀ piece ∈ log, Holds f piece.dataset.recipe piece.nodes
  distinct : (Dataset.names e.datasets).Nodup → (Dataset.names e'.datasets).Nodup

theorem Adds.refl (f : Forest) (e : Emission) : Adds f e e [] [] := by
  refine ⟨?_, ?_, by simp, fun distinct => distinct⟩
  · rw [List.map_nil, List.append_nil]
  · rw [List.append_nil]

theorem Adds.seq {log log' : List Piece} {bound bound' : List (NodeId × String)}
    (one : Adds f e e' log bound) (two : Adds f e' e'' log' bound') :
    Adds f e e'' (log ++ log') (bound ++ bound') where
  datasets := by rw [two.datasets, one.datasets, List.map_append, List.append_assoc]
  bound := by rw [two.bound, one.bound, List.append_assoc]
  holds piece member := by
    rcases List.mem_append.mp member with first | second
    · exact one.holds piece first
    · exact two.holds piece second
  distinct distinct := two.distinct (one.distinct distinct)

def Filed (datasets : List Dataset) (owner : String → List NodeId) (log : List Piece) : Prop :=
  ∀ piece ∈ log, piece.dataset ∈ datasets ∧ owner piece.dataset.name = piece.nodes

theorem Filed.append {log log' : List Piece} (filed : Filed datasets owner (log ++ log')) :
    Filed datasets owner log ∧ Filed datasets owner log' :=
  ⟨fun piece member => filed piece (List.mem_append_left _ member),
    fun piece member => filed piece (List.mem_append_right _ member)⟩

def Stands (datasets : List Dataset) (owner : String → List NodeId) (pending : Recipe)
    (nodes : List NodeId) (r : Recipe) (owners : List NodeId) : Prop :=
  (pending.origin.source? = none ∧ r = pending ∧ owners = nodes) ∨
    ∃ source before above, pending.origin = .derived source ∧ pending.format = none ∧
      Reads datasets owner source before above ∧ r = before.followedBy pending.transforms ∧
      owners = above ++ nodes

namespace Stands

variable {pending : Recipe}

theorem of_reads (reads : Reads datasets owner name r owners) :
    Stands datasets owner (.derived name) [] r owners :=
  .inr ⟨name, r, owners, rfl, rfl, reads, (Recipe.followedBy_nil r).symm, (List.append_nil _).symm⟩

theorem followedBy (stands : Stands datasets owner pending nodes r owners)
    (transforms : List Transform) (more : List NodeId) :
    Stands datasets owner (pending.followedBy transforms) (nodes ++ more)
      (r.followedBy transforms) (owners ++ more) := by
  rcases stands with ⟨base, rfl, rfl⟩ | ⟨source, before, above, origin, plain, reads, rfl, rfl⟩
  · exact .inl ⟨base, rfl, rfl⟩
  · refine .inr ⟨source, before, above, origin, plain, reads, ?_, List.append_assoc ..⟩
    rw [← Recipe.followedBy_append]
    rfl

theorem withCoercions (stands : Stands datasets owner pending nodes r owners)
    (base : pending.origin.source? = none) (fields : Keyed String Coercion) :
    Stands datasets owner (Flow.withCoercions pending fields) nodes (Flow.withCoercions r fields)
      owners := by
  rcases stands with ⟨base, rfl, rfl⟩ | ⟨source, _, _, origin, _⟩
  · exact .inl ⟨base, rfl, rfl⟩
  · rw [origin] at base
    cases base

theorem reads (stands : Stands datasets owner pending nodes r owners)
    (distinct : (Dataset.names datasets).Nodup)
    (filed : Filed datasets owner [⟨⟨name, pending⟩, nodes⟩]) :
    Reads datasets owner name r owners := by
  obtain ⟨member, owns⟩ := filed _ (List.mem_singleton.mpr rfl)
  rcases stands with ⟨base, rfl, rfl⟩ | ⟨source, before, above, origin, plain, reads, rfl, rfl⟩
  · have loaded := Reads.loaded owner distinct member base
    rwa [owns] at loaded
  · have derived := reads.derived distinct member origin plain
    rwa [owns] at derived

theorem repeats (stands : Stands datasets owner pending [] r owners)
    (repeated : pending.alias? = some source) : Reads datasets owner source r owners := by
  obtain ⟨bare, _, derived⟩ := Recipe.alias?_eq_some_iff.mp repeated
  rcases stands with ⟨base, _⟩ | ⟨source', before, above, origin, _, reads, rfl, rfl⟩
  · rw [base] at derived
    cases derived
  · rw [origin] at derived
    cases derived
    rw [bare, Recipe.followedBy_nil, List.append_nil]
    exact reads

end Stands

-- Whatever is written out, or only repeated, can be read back under the name that is handed over.
theorem materialize_spec (e : Emission) (preferred : Option String) (holds : Holds f r nodes) :
    ∃ name e' log, e.materialize r preferred = (name, e') ∧ Adds f e e' log [] ∧
      (log.flatMap (·.nodes)).Sublist nodes ∧
      ∀ datasets owner, Filed datasets owner log → (Dataset.names datasets).Nodup →
        ∀ before above, Stands datasets owner r nodes before above →
          Reads datasets owner name before above := by
  rcases Emission.materialize_cases e r preferred with
    ⟨source, repeated, same⟩ | ⟨_, name, e', written, free, grown, bound⟩
  · obtain rfl := holds.eq_nil (Recipe.alias?_eq_some_iff.mp repeated).1
    exact ⟨source, e, [], same, .refl f e, List.nil_sublist _,
      fun _ _ _ _ _ _ stands => stands.repeats repeated⟩
  · refine ⟨name, e', [⟨⟨name, r⟩, nodes⟩], written, ⟨grown, ?_, ?_, ?_⟩, by simp,
      fun _ _ filed distinct _ _ stands => stands.reads distinct filed⟩
    · rw [bound, List.append_nil]
    · intro piece member
      rw [List.mem_singleton.mp member]
      exact holds
    · intro distinct
      rw [grown, Dataset.names, List.map_append]
      exact Distinct.append_one_nodup _ _ distinct free

end Viewflow.Flow.Forest
