import Viewflow.Proofs.Passes.Hoist
import Viewflow.Proofs.Passes.Merge
import Viewflow.Proofs.Passes.Prune

namespace Viewflow.Flow.Forest

inductive Action where
  | addNode (name : String) (step : Step)
  | addRoot (name : String) (step : Step)
  | addUnder (parent : NodeId) (name : String) (step : Step)
  | setParent (node parent : NodeId)
  | remove (node : NodeId)
  | swapWithParent (node : NodeId)
  | cloneNode (node : NodeId)
  | pruneEmptyRoots
  | setStep (node : NodeId) (step : Step)
  | setBoundary (node : NodeId) (boundary : Boundary)
  | removeUnused (demand : Demand)
  | moveParseUp
  | mergeSiblings

def perform (f : Forest) : Action → Except Fault Forest
  | .addNode name step => .ok (f.addNode name step).1
  | .addRoot name step => .ok (f.addRoot name step).1
  | .addUnder parent name step => do
    f.known parent
    return (f.addUnder parent name step).1
  | .setParent node parent => do
    f.known node
    f.known parent
    f.setParent node parent
  | .remove node => do
    f.known node
    f.remove node
  | .swapWithParent node => do
    f.known node
    f.swapWithParent node
  | .cloneNode node => do
    f.known node
    return (f.cloneNode node).1
  | .pruneEmptyRoots => .ok f.pruneEmptyRoots
  | .setStep node step => do
    f.known node
    return f.setStep node step
  | .setBoundary node boundary => do
    f.known node
    if (f.step node).isOutput then return f.setStep node (.output boundary)
    throw (.notOutput "output_mut" node)
  | .removeUnused demand => return (← f.removeUnused demand).1
  | .moveParseUp => return (← f.moveParseUp).1
  | .mergeSiblings => return (← f.mergeSiblings).1

inductive Reached : Forest → Prop where
  | empty : Reached .empty
  | step {f g : Forest} {action : Action} : Reached f → f.perform action = .ok g → Reached g

variable {f g : Forest} {n p : NodeId} {action : Action}

theorem known_of_bind {α : Type} {k : Unit → Except Fault α} {a : α}
    (done : (f.known n >>= k) = .ok a) : n.index < f.size ∧ k () = .ok a := by
  cases known : f.known n with
  | error fault => rw [known] at done; cases done
  | ok found =>
    rw [known] at done
    exact ⟨(known_eq_ok_iff f n).mp known, done⟩

theorem not_error {result : Except Fault Forest} (done : result = .ok g) :
    ¬ ∃ fault, result = .error fault := by
  rintro ⟨fault, failed⟩
  rw [done] at failed
  cases failed

namespace WellFormed

theorem setParent_error_iff (valid : f.WellFormed) (known : n.index < f.size)
    (place : p.index < f.size) :
    (∃ fault, f.setParent n p = .error fault) ↔ Above f.parent? n p := by
  constructor
  · rintro ⟨fault, failed⟩
    by_contra free
    obtain ⟨g, ok, _⟩ := valid.setParent known place free
    rw [failed] at ok
    cases ok
  · intro above
    refine ⟨.cycle n p, ?_⟩
    unfold Forest.setParent
    rw [if_pos (valid.isAncestor_iff.mpr above)]

theorem remove_error_iff (valid : f.WellFormed) (n : NodeId) :
    (∃ fault, f.remove n = .error fault) ↔ f.parent? n = none := by
  constructor
  · rintro ⟨fault, failed⟩
    cases named : f.parent? n with
    | none => rfl
    | some p =>
      obtain ⟨g, ok, _⟩ := valid.remove named
      rw [failed] at ok
      cases ok
  · intro top
    refine ⟨.noParent "remove" n (f.node n).name, ?_⟩
    unfold Forest.remove
    unfold parentOr
    rw [top]
    rfl

theorem swapWithParent_error_iff (valid : f.WellFormed) (n : NodeId) :
    (∃ fault, f.swapWithParent n = .error fault) ↔
      f.parent? n = none ∨ ∃ p, f.parent? n = some p ∧ f.parent? p = none ∧ p ∉ f.roots := by
  constructor
  · rintro ⟨fault, failed⟩
    cases named : f.parent? n with
    | none => exact .inl rfl
    | some p =>
      refine .inr ⟨p, rfl, ?_⟩
      have unplaced : ¬ ((f.parent? p).isSome ∨ p ∈ f.roots) := by
        intro placed
        obtain ⟨g, ok, _⟩ := valid.swapWithParent named placed
        rw [failed] at ok
        cases ok
      rw [not_or, Bool.not_eq_true, Option.isSome_eq_false_iff, Option.isNone_iff_eq_none] at unplaced
      exact unplaced
  · rintro (top | ⟨p, named, top, loose⟩)
    · refine ⟨.noParent "swap_with_parent" n (f.node n).name, ?_⟩
      unfold Forest.swapWithParent
      unfold parentOr
      rw [top]
      rfl
    · refine ⟨.noPlace p, ?_⟩
      obtain ⟨g, unhooked, _, relinked⟩ := valid.unhook named
      have top' : g.parent? p = none := (relinked.parent p).trans (bypass_top top)
      have loose' : p ∉ g.roots := relinked.roots ▸ loose
      unfold Forest.swapWithParent
      unfold parentOr
      rw [named]
      simp only [bind_ok, unhooked, Forest.takePlace, top', if_neg loose']
      rfl

theorem placed_of_swapped (valid : f.WellFormed) (named : f.parent? n = some p)
    (done : f.swapWithParent n = .ok g) : (f.parent? p).isSome ∨ p ∈ f.roots := by
  apply Decidable.byContradiction
  intro loose
  rw [not_or, Bool.not_eq_true, Option.isSome_eq_false_iff, Option.isNone_iff_eq_none] at loose
  exact not_error done ((valid.swapWithParent_error_iff n).mpr (.inr ⟨p, named, loose⟩))

theorem perform (valid : f.WellFormed) (done : f.perform action = .ok g) : g.WellFormed := by
  cases action with
  | addNode name step =>
    cases done
    exact valid.addNode name step
  | addRoot name step =>
    cases done
    exact valid.addRoot name step
  | addUnder parent name step =>
    obtain ⟨place, done⟩ := known_of_bind done
    cases done
    exact (valid.addUnder place name step).1
  | setParent node parent =>
    obtain ⟨known, done⟩ := known_of_bind done
    obtain ⟨place, done⟩ := known_of_bind done
    have free := not_error done
    rw [valid.setParent_error_iff known place] at free
    exact (of_ok (valid.setParent known place free) done).1
  | remove node =>
    obtain ⟨_, done⟩ := known_of_bind done
    have below := not_error done
    rw [valid.remove_error_iff] at below
    obtain ⟨p, named⟩ := Option.ne_none_iff_exists'.mp below
    exact (of_ok (valid.remove named) done).1
  | swapWithParent node =>
    obtain ⟨_, done⟩ := known_of_bind done
    have fine := not_error done
    rw [valid.swapWithParent_error_iff, not_or] at fine
    obtain ⟨p, named⟩ := Option.ne_none_iff_exists'.mp fine.1
    exact (of_ok (valid.swapWithParent named (valid.placed_of_swapped named done)) done).1
  | cloneNode node =>
    obtain ⟨_, done⟩ := known_of_bind done
    cases done
    exact valid.cloneNode node
  | pruneEmptyRoots =>
    cases done
    exact valid.pruneEmptyRoots
  | setStep node step =>
    obtain ⟨_, done⟩ := known_of_bind done
    cases done
    exact valid.setStep node step
  | setBoundary node boundary =>
    obtain ⟨_, done⟩ := known_of_bind done
    split at done
    · cases done
      exact valid.setStep node _
    · cases done
  | removeUnused demand =>
    obtain ⟨h, n, ok, valid', _⟩ := valid.removeUnused demand
    rw [Forest.perform, ok] at done
    cases done
    exact valid'
  | moveParseUp =>
    obtain ⟨h, n, ok, valid', _⟩ := valid.moveParseUp .empty
    unfold Forest.perform at done
    rw [ok] at done
    cases done
    exact valid'
  | mergeSiblings =>
    obtain ⟨h, n, ok, valid', _⟩ := valid.mergeSiblings .empty
    unfold Forest.perform at done
    rw [ok] at done
    cases done
    exact valid'

end WellFormed

theorem Reached.wellFormed (reached : Reached f) : f.WellFormed := by
  induction reached with
  | empty => exact .empty
  | step _ done ih => exact ih.perform done

-- Whatever was requested, both ends of every edge agree, no chain of parents comes back to where it
-- started, and the requests that would break this are the ones that fail.
theorem reached_links (reached : Reached f) :
    (∀ c p, c ∈ f.children p → f.parent? c = some p) ∧
    (∀ c p, f.parent? c = some p → (f.children p).count c = 1 ∧ c ∉ f.roots) ∧
    f.roots.Nodup ∧
    (∀ r ∈ f.roots, f.parent? r = none) ∧
    (∀ c p, f.parent? c = some p → ¬ Above f.parent? c p) ∧
    f.linksAgree = true ∧
    (∀ n p, n.index < f.size → p.index < f.size →
      ((∃ fault, f.setParent n p = .error fault) ↔ Above f.parent? n p)) ∧
    (∀ n, n.index < f.size → ((∃ fault, f.remove n = .error fault) ↔ f.parent? n = none)) ∧
    (∀ n, n.index < f.size →
      ((∃ fault, f.swapWithParent n = .error fault) ↔
        f.parent? n = none ∨ ∃ p, f.parent? n = some p ∧ f.parent? p = none ∧ p ∉ f.roots)) ∧
    (∀ demand, ∃ result, f.removeUnused demand = .ok result) ∧
    (∃ result, f.moveParseUp = .ok result) ∧
    (∃ result, f.mergeSiblings = .ok result) := by
  have valid := reached.wellFormed
  refine ⟨fun c p => valid.pointsBack p c, fun c p named =>
      ⟨valid.listedOnce p c named, valid.not_root named⟩,
    valid.rootsDistinct, valid.rootTop, fun c p => valid.no_return, valid.linksAgree,
    fun n p => valid.setParent_error_iff, fun n _ => valid.remove_error_iff n,
    fun n _ => valid.swapWithParent_error_iff n, ?_, ?_, ?_⟩
  · intro demand
    obtain ⟨g, removed, done, _⟩ := valid.removeUnused demand
    exact ⟨(g, removed), done⟩
  · obtain ⟨g, count, done, _⟩ := valid.moveParseUp .empty
    exact ⟨(g, count), done⟩
  · obtain ⟨g, merged, done, _⟩ := valid.mergeSiblings .empty
    exact ⟨(g, merged), done⟩

-- A root that changed places with its child is below it, and cannot become its parent again.
theorem reached_links_swapped :
    ∃ f, Reached f ∧ f.parent? ⟨0⟩ = some ⟨1⟩ ∧ f.roots = [⟨1⟩] ∧ f.linksAgree = true ∧
      ∃ fault, f.setParent ⟨1⟩ ⟨0⟩ = .error fault := by
  have root : Reached _ := @Reached.step _ _ (.addRoot "source" (.source (.named "cars"))) .empty rfl
  have grown : Reached _ := @Reached.step _ _ (.addUnder ⟨0⟩ "identifier" .identifier) root rfl
  have swapped : Reached _ := @Reached.step _ _ (.swapWithParent ⟨1⟩) grown rfl
  obtain ⟨_, _, _, _, _, agree, cycle, _⟩ := reached_links swapped
  refine ⟨_, swapped, rfl, rfl, agree, ?_⟩
  exact (cycle ⟨1⟩ ⟨0⟩ (by decide) (by decide)).mpr (.parent rfl)

end Viewflow.Flow.Forest
