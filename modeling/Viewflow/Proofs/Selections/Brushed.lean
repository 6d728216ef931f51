import Viewflow.Proofs.Selections.Grounded
import Viewflow.Proofs.Selections.Listed
import Viewflow.Proofs.Selections.Parts

namespace Viewflow
open Output (Mark Signal)

theorem Selection.projects_iff {s : Selection} {c : Channel} :
    s.projects c = true ↔ ∃ p ∈ s.project, p.channel? = some c := by
  unfold Selection.projects Selection.lastPlace?
  rw [Option.isSome_map, List.getLast?_isSome, ne_eq, List.filter_eq_nil_iff]
  constructor
  · intro some
    by_contra none
    refine some fun entry listed => ?_
    have known := (List.mem_zipIdx' listed).2 ▸ List.getElem_mem _
    simpa using fun same => none ⟨entry.1, known, same⟩
  · rintro ⟨p, listed, same⟩ none
    obtain ⟨place, within, rfl⟩ := List.getElem_of_mem listed
    exact none (s.project[place], place) (List.mem_zipIdx_iff_getElem?.mpr (by simp [within]))
      (by simpa using same)

namespace Brush

def background (ctx : UnitContext) (s : Selection) : Mark :=
  clipped (markName s ++ "_bg")
    [("fill", valueField (styleValue s "fill")),
      ("fillOpacity", valueField (styleValue s "fillOpacity"))]
    (edges ctx s)

def foreground (ctx : UnitContext) (s : Selection) : Mark :=
  clipped (markName s) [("fill", valueField (.str "transparent"))] (edges ctx s ++ strokes s)

theorem marks_drawn (ctx : UnitContext) {s : Selection} (drawn : s.bindsScales = false)
    (before : List Mark) :
    marks ctx s before = background ctx s :: before ++ [foreground ctx s] := by
  unfold marks
  rw [drawn, if_neg Bool.false_ne_true]
  rfl

end Brush

namespace Selections

variable {ctx : UnitContext} {values : List Selection} {before after : List Mark} {m : Mark}
  {s : Selection} {r : Refinement} {t : Technique}

-- Cells around the items of the view, or one of the two rectangles of a brush.
inductive Adds (ctx : UnitContext) (values : List Selection) : Mark → Prop where
  | cell {s : Selection} : s ∈ values → Adds ctx values (Refinement.cell ctx s (ctx.nameOf "marks"))
  | background {s : Selection} : s ∈ values → s.type = "interval" → s.bindsScales = false →
      Adds ctx values (Brush.background ctx s)
  | foreground {s : Selection} : s ∈ values → s.type = "interval" → s.bindsScales = false →
      Adds ctx values (Brush.foreground ctx s)

structure Surrounds (ctx : UnitContext) (values : List Selection) (before after : List Mark) :
    Prop where
  keeps : before ⊆ after
  adds : ∀ m ∈ after, m ∈ before ∨ Adds ctx values m

namespace Surrounds

variable {middle : List Mark}

theorem refl (ctx : UnitContext) (values : List Selection) (before : List Mark) :
    Surrounds ctx values before before := ⟨List.Subset.refl _, fun _ => .inl⟩

theorem trans (one : Surrounds ctx values before middle) (two : Surrounds ctx values middle after) :
    Surrounds ctx values before after := by
  refine ⟨List.Subset.trans one.keeps two.keeps, ?_⟩
  intro m member
  rcases two.adds m member with there | adds
  · exact one.adds m there
  · exact .inr adds

theorem brush (listed : s ∈ values) (interval : s.type = "interval") (before : List Mark) :
    Surrounds ctx values before (Brush.marks ctx s before) := by
  cases drawn : s.bindsScales with
  | true =>
    unfold Brush.marks
    rw [drawn, if_pos rfl]
    exact .refl ctx values before
  | false =>
    rw [Brush.marks_drawn ctx drawn]
    refine ⟨fun m member => by simp [member], ?_⟩
    intro m member
    simp only [List.cons_append, List.mem_cons, List.mem_append, List.not_mem_nil, or_false] at member
    rcases member with rfl | old | rfl
    · exact .inr (.background listed interval drawn)
    · exact .inl old
    · exact .inr (.foreground listed interval drawn)

theorem nearest (listed : s ∈ values) (before : List Mark) :
    Surrounds ctx values before (Refinement.nearestMarks ctx s before) := by
  unfold Refinement.nearestMarks
  simp only
  split
  · exact .refl ctx values before
  split
  · exact .refl ctx values before
  · generalize Refinement.lastIndexOf (ctx.nameOf "marks") before + 1 = place
    have whole := List.take_append_drop place before
    refine ⟨?_, ?_⟩
    · intro m member
      rw [← whole, List.mem_append] at member
      exact List.mem_append.mpr (member.imp_right (List.mem_cons_of_mem _))
    · intro m member
      rcases List.mem_append.mp member with ahead | behind
      · exact .inl (List.mem_of_mem_take ahead)
      · rcases List.mem_cons.mp behind with rfl | behind
        · exact .inr (.cell listed)
        · exact .inl (List.mem_of_mem_drop behind)

theorem refinement (member : r ∈ Refinement.all) (listed : s ∈ values) (before : List Mark) :
    Surrounds ctx values before (r.marks ctx s before) := by
  rcases Refinement.mem_all member with rfl | rfl | rfl | rfl | rfl | rfl | rfl | rfl
  case inr.inr.inr.inr.inr.inr.inl => exact nearest listed before
  all_goals exact .refl ctx values before

theorem technique (found : Registry.builtIn.lookup s.name s.type = .ok t) (listed : s ∈ values)
    (before : List Mark) : Surrounds ctx values before (t.marks ctx s before) := by
  rcases Registry.lookup_builtIn found with ⟨_, rfl⟩ | ⟨_, rfl⟩ | ⟨interval, rfl⟩
  · exact .refl ctx values before
  · exact .refl ctx values before
  · exact brush listed interval before

theorem foldlM {rest : List Selection} (sub : rest ⊆ values)
    (done : rest.foldlM (addMarks ctx .builtIn) before = .ok after) :
    Surrounds ctx values before after := by
  induction rest generalizing before with
  | nil =>
    cases done
    exact .refl ctx values _
  | cons s rest ih =>
    obtain ⟨here, sub⟩ := List.cons_subset.mp sub
    rw [List.foldlM_cons] at done
    obtain ⟨middle, first, done⟩ := bind_eq_ok done
    obtain ⟨t, found, first⟩ := bind_eq_ok first
    cases first
    refine .trans ?_ (ih sub done)
    refine List.foldlRecOn _ _ (technique found here before) ?_
    intro marks surrounds r member
    exact surrounds.trans (refinement (Refinement.mem_applicable.mp member).1 here marks)

end Surrounds

end Selections

namespace Brush

variable {ctx : UnitContext} {s : Selection} {c : Channel} {names : List String}

structure Reads (ctx : UnitContext) (s : Selection) (names : List String) : Prop where
  edges : ∀ e ∈ edges ctx s, ∀ text ∈ e.2.references,
    ∃ n ∈ names, text = n ++ "[0]" ∨ text = n ++ "[1]"
  strokes : ∃ shown ⊆ names, strokeTest s =
    Text.joined " && " (shown.map fun n => n ++ "[0] !== " ++ n ++ "[1]")
  anchor : ∃ moved : List (Channel × String), (∀ m ∈ moved, m.2 ∈ names) ∧
    Refinement.panStart ctx s = "\x7bx: x(unit), y: y(unit)" ++
      Text.joined "" (moved.map fun m => ", extent_" ++ m.1.name ++ ": " ++ "slice(" ++ m.2 ++ ")") ++
        "\x7d"

theorem exists_position (projects : s.projects c = true) (positional : c.isPositional = true) :
    ∃ field, (c, field) ∈ positions s := by
  obtain ⟨p, listed, same⟩ := Selection.projects_iff.mp projects
  cases p with
  | field _ => cases same
  | encoding d f =>
    cases same
    exact ⟨f, List.mem_filterMap.mpr ⟨_, listed, if_pos positional⟩⟩

theorem shownEdge_references (key : String) (value : Json) (other : key ≠ "test") :
    (shownEdge ctx s [(key, value)]).references = Json.fieldReferences [(key, value)] := by
  unfold shownEdge
  split
  · by_cases ahead : key < "test"
    · simp [Json.object, Json.sortFields, Json.insertField, Ne.symm other, ahead, Json.references,
        Json.itemReferences, Json.fieldReferences, Json.namedSignal, atZero, Json.ofNat]
    · simp [Json.object, Json.sortFields, Json.insertField, Ne.symm other, ahead, Json.references,
        Json.itemReferences, Json.fieldReferences, Json.namedSignal, atZero, Json.ofNat]
  · rw [Json.references]

theorem edge_references {place text : String} {otherwise : List (String × Json)}
    (plain : (shownEdge ctx s otherwise).references = [])
    (member : text ∈ (shownEdge ctx s (edge s c place otherwise)).references) :
    s.projects c = true ∧ text = s.name ++ "_" ++ c.name ++ place := by
  unfold edge at member
  split at member
  · next projects =>
    rw [shownEdge_references _ _ (by decide)] at member
    exact ⟨projects, by simpa [Json.fieldReferences, Json.namedSignal] using member⟩
  · rw [plain] at member
    cases member

theorem atZero_references : (shownEdge ctx s atZero).references = [] := by
  rw [atZero, shownEdge_references _ _ (by decide)]
  simp [Json.fieldReferences, Json.namedSignal, Json.ofNat, Json.references]

theorem viewSize_references (side : String) : (shownEdge ctx s (viewSize side)).references = [] := by
  rw [viewSize, shownEdge_references _ _ (by decide)]
  simp [Json.fieldReferences, Json.namedSignal, Json.references]

theorem reads (safe : Text.identifier s.name = s.name) (drawn : s.bindsScales = false)
    (defined : ∀ c, c.isPositional = true → s.projects c = true → s.visualSignal c ∈ names) :
    Reads ctx s names := by
  have standing : ∀ {c : Channel}, c.isPositional = true → s.projects c = true →
      s.name ++ "_" ++ c.name ∈ names := by
    intro c positional projects
    have name : s.visualSignal c = s.name ++ "_" ++ c.name := s.visualSignal_continued safe c
    exact name ▸ defined c positional projects
  refine ⟨?_, ?_, ?_⟩
  · intro e member text refers
    simp only [Brush.edges, List.mem_cons, List.not_mem_nil, or_false] at member
    rcases member with rfl | rfl | rfl | rfl
    · obtain ⟨projects, same⟩ := edge_references atZero_references refers
      exact ⟨_, standing rfl projects, .inl same⟩
    · obtain ⟨projects, same⟩ := edge_references atZero_references refers
      exact ⟨_, standing rfl projects, .inl same⟩
    · obtain ⟨projects, same⟩ := edge_references (viewSize_references "width") refers
      exact ⟨_, standing rfl projects, .inr same⟩
    · obtain ⟨projects, same⟩ := edge_references (viewSize_references "height") refers
      exact ⟨_, standing rfl projects, .inr same⟩
  · refine ⟨([Channel.x, .y].filter s.projects).map fun c => s.name ++ "_" ++ c.name, ?_, ?_⟩
    · intro n member
      obtain ⟨c, listed, rfl⟩ := List.mem_map.mp member
      obtain ⟨listed, projects⟩ := List.mem_filter.mp listed
      refine standing ?_ projects
      rcases List.mem_pair.mp listed with rfl | rfl <;> rfl
    · unfold strokeTest
      cases x : s.projects .x <;> cases y : s.projects .y <;> simp [x, y]
  · refine ⟨([Channel.x, .y].filter s.projects).map fun c => (c, s.visualSignal c), ?_, ?_⟩
    · intro m member
      obtain ⟨c, listed, rfl⟩ := List.mem_map.mp member
      obtain ⟨listed, projects⟩ := List.mem_filter.mp listed
      refine defined c ?_ projects
      rcases List.mem_pair.mp listed with rfl | rfl <;> rfl
    · unfold Refinement.panStart Refinement.panExtent
      cases x : s.projects .x <;> cases y : s.projects .y <;>
        simp [x, y, drawn, Text.joined, String.append_assoc, -String.reduceAppend]

end Brush
end Viewflow
