import Viewflow.Proofs.Selections.Brushed
import Viewflow.Proofs.Selections.Independent
import Viewflow.Proofs.Selections.Kept

namespace Viewflow
open Output (Mark)

variable {ctx : UnitContext} {s t : Selection} {values : List Selection} {selections : Selections}
  {primary m : Mark} {before after : List Mark}

namespace Refinement

variable {part front back : List Char} {separator : Char}

theorem contains_iff {cs : List Char} : contains part cs = true ↔ part <:+: cs := by
  induction cs with
  | nil => rw [contains, List.isEmpty_iff, List.infix_nil]
  | cons c rest ih => rw [contains, Bool.or_eq_true, List.isPrefixOf_iff_prefix, ih, List.infix_cons_iff]

theorem infix_front_iff (whole : separator ∉ part) (apart : ¬ part <:+: back) :
    part <:+: front ++ separator :: back ↔ part <:+: front := by
  constructor
  · rintro ⟨left, right, same⟩
    rcases List.append_eq_append_iff.mp same with ⟨more, within, _⟩ | ⟨more, passed, rest⟩
    · exact ⟨left, more, within.symm⟩
    cases more with
    | nil => exact ⟨left, [], by simpa using passed⟩
    | cons c more =>
      obtain ⟨rfl, rfl⟩ := List.cons.inj rest
      rcases List.append_eq_append_iff.mp passed with ⟨mid, _, split⟩ | ⟨mid, _, split⟩
      · exact absurd (split ▸ by simp) whole
      · cases mid with
        | nil => exact absurd (List.nil_append part ▸ split ▸ List.mem_cons_self ..) whole
        | cons _ mid =>
          obtain ⟨_, rfl⟩ := List.cons.inj split
          exact absurd ⟨mid, right, rfl⟩ apart
  · rintro ⟨left, right, rfl⟩
    exact ⟨left, right ++ separator :: back, by simp⟩

theorem lastIndexOf_alone {front back : List Mark} (ahead : ∀ other ∈ front, other.name ≠ m.name)
    (behind : ∀ other ∈ back, other.name ≠ m.name) :
    lastIndexOf m.name (front ++ m :: back) = front.length := by
  have none : ∀ marks : List Mark, (∀ other ∈ marks, other.name ≠ m.name) → ∀ place,
      ((marks.zipIdx place).filter fun entry => entry.1.name = m.name) = [] := by
    intro marks others place
    rw [List.filter_eq_nil_iff]
    intro entry listed
    simpa using others entry.1 (List.fst_mem_of_mem_zipIdx listed)
  unfold lastIndexOf
  rw [List.zipIdx_append, List.zipIdx_cons, List.filter_append, none front ahead,
    List.filter_cons_of_pos (by simp), none back behind]
  simp

theorem placed_behind {front back : List Mark} (ahead : ∀ other ∈ front, other.name ≠ m.name)
    (behind : ∀ other ∈ back, other.name ≠ m.name) (new : Mark) :
    (front ++ m :: back).take (lastIndexOf m.name (front ++ m :: back) + 1) ++
        new :: (front ++ m :: back).drop (lastIndexOf m.name (front ++ m :: back) + 1) =
      front ++ m :: new :: back := by
  have split : front ++ m :: back = (front ++ [m]) ++ back := by simp
  rw [lastIndexOf_alone ahead behind, split, List.take_left' (by simp), List.drop_left' (by simp)]
  simp

end Refinement

namespace Selection

def draws (s : Selection) : Bool := s.type == "interval" && !s.bindsScales

def passesForCells (s : Selection) : Bool :=
  s.draws && Refinement.contains Refinement.cellMark.toList s.name.toList

theorem snaps_of_draws (draws : s.draws = true) : s.snaps = false := by
  unfold Selection.draws at draws
  rw [Bool.and_eq_true, beq_iff_eq] at draws
  simp [snaps, draws.1]

theorem draws_of_snaps (snaps : s.snaps = true) : s.draws = false := by
  cases draws : s.draws with
  | false => rfl
  | true =>
    rw [snaps_of_draws draws] at snaps
    cases snaps

end Selection

namespace Refinement

theorem contains_continued (s : Selection) {suffix : String}
    (other : contains cellMark.toList suffix.toList = false) :
    contains cellMark.toList (s.continued suffix).toList = contains cellMark.toList s.name.toList := by
  have parts : (s.continued suffix).toList = s.name.toList ++ '_' :: suffix.toList := by
    simp [Selection.continued]
  rw [Bool.eq_iff_iff, contains_iff, contains_iff, parts]
  refine infix_front_iff (by decide) ?_
  rw [← contains_iff, other]
  exact Bool.false_ne_true

theorem contains_cell (ctx : UnitContext) (s : Selection) (primary : String) :
    contains cellMark.toList (cell ctx s primary).name.toList = true := by
  have name : (cell ctx s primary).name = ctx.unitName ++ "_" ++ cellMark := rfl
  rw [contains_iff, name, String.toList_append]
  exact (List.suffix_append _ _).isInfix

theorem cell_ne_primary (ctx : UnitContext) (s : Selection) (primary : String) :
    (cell ctx s primary).name ≠ ctx.nameOf "marks" := by
  change ctx.unitName ++ "_" ++ cellMark ≠ ctx.unitName ++ "_" ++ "marks"
  rw [ne_eq, String.append_right_inj]
  decide

end Refinement

namespace Brush

variable (ctx : UnitContext) (s : Selection)

theorem background_name : (background ctx s).name = s.continued "brush_bg" := by
  change s.name ++ "_brush" ++ "_bg" = _
  rw [String.append_assoc]
  exact s.continued_of rfl

theorem foreground_name : (foreground ctx s).name = s.continued "brush" := s.continued_of rfl

theorem continued_ne_primary {part : String} {c : Char} (ending : part.toList.getLast? = some c)
    (other : c ≠ 's') : s.continued part ≠ ctx.nameOf "marks" := by
  intro same
  have last := congrArg (fun s : String => s.toList.getLast?) same
  simp only [Selection.continued, UnitContext.nameOf, String.toList_append, List.getLast?_append, ending] at last
  exact other (Option.some.inj last)

theorem background_ne_primary : (background ctx s).name ≠ ctx.nameOf "marks" := by
  rw [background_name]
  exact continued_ne_primary ctx s rfl (by decide)

theorem foreground_ne_primary : (foreground ctx s).name ≠ ctx.nameOf "marks" := by
  rw [foreground_name]
  exact continued_ne_primary ctx s rfl (by decide)

end Brush

namespace Selections
open Refinement (cell cellMark contains hasCells isPath nearestMarks placed_behind)

def surround (ctx : UnitContext) (marks : List Mark) (s : Selection) : List Mark :=
  if s.draws then Brush.background ctx s :: marks ++ [Brush.foreground ctx s]
  else if s.snaps then nearestMarks ctx s marks
  else marks

theorem refined_marks (ctx : UnitContext) (s : Selection) (marks : List Mark) :
    (Refinement.applicable s).foldl (fun marks r => r.marks ctx s marks) marks =
      if s.snaps then nearestMarks ctx s marks else marks := by
  unfold Refinement.applicable
  rw [List.foldl_filter]
  simp only [Refinement.all, List.foldl_cons, List.foldl_nil, Refinement.project, Refinement.toggle,
    Refinement.scales, Refinement.translate, Refinement.zoom, Refinement.inputs, Refinement.nearest,
    Refinement.latest, ite_self]

theorem technique_marks {t : Technique} (found : Registry.builtIn.lookup s.name s.type = .ok t)
    (ctx : UnitContext) (marks : List Mark) :
    t.marks ctx s marks =
      if s.draws then Brush.background ctx s :: marks ++ [Brush.foreground ctx s] else marks := by
  unfold Selection.draws
  rcases Registry.lookup_builtIn found with ⟨type, rfl⟩ | ⟨type, rfl⟩ | ⟨type, rfl⟩
  · rw [type]
    rfl
  · rw [type]
    rfl
  · rw [type]
    change Brush.marks ctx s marks = _
    cases drawn : s.bindsScales with
    | true =>
      unfold Brush.marks
      rw [drawn]
      rfl
    | false => exact Brush.marks_drawn ctx drawn marks

theorem addMarks_eq_ok_iff : addMarks ctx .builtIn before s = .ok after ↔
    (Registry.builtIn.find? s.type).isSome = true ∧ after = surround ctx before s := by
  have whole : ∀ t, Registry.builtIn.lookup s.name s.type = .ok t →
      (Refinement.applicable s).foldl (fun marks r => r.marks ctx s marks) (t.marks ctx s before) =
        surround ctx before s := by
    intro t found
    rw [refined_marks, technique_marks found, surround]
    cases draws : s.draws with
    | true => simp [s.snaps_of_draws draws]
    | false => simp
  constructor
  · intro done
    obtain ⟨t, found, done⟩ := bind_eq_ok done
    cases done
    exact ⟨Registry.exists_lookup_iff.mp ⟨t, found⟩, whole t found⟩
  · rintro ⟨registered, rfl⟩
    obtain ⟨t, found⟩ := Registry.exists_lookup_iff.mpr registered
    unfold addMarks
    rw [found]
    exact congrArg Except.ok (whole t found)

-- The selection that has cells: the first that snaps, unless a brush passes for cells before it.
def snapping? (ctx : UnitContext) (values : List Selection) : Option Selection :=
  if isPath ctx.view.mark then none
  else (values.find? fun s => s.snaps || s.passesForCells).filter Selection.snaps

def stacked (ctx : UnitContext) (primary : Mark) (values : List Selection) : List Mark :=
  let brushes := values.filter Selection.draws
  (brushes.map (Brush.background ctx)).reverse ++ primary ::
    ((snapping? ctx values).toList.map (fun s => cell ctx s primary.name) ++
      brushes.map (Brush.foreground ctx))

theorem brushes_other {brush : Selection → Mark} (other : ∀ s, (brush s).name ≠ ctx.nameOf "marks")
    (there : m ∈ values.map brush) : m.name ≠ ctx.nameOf "marks" := by
  obtain ⟨s, _, rfl⟩ := List.mem_map.mp there
  exact other s

theorem snapping?_append (silent : s.snaps = false) :
    snapping? ctx (values ++ [s]) = snapping? ctx values := by
  unfold snapping?
  rw [List.find?_append]
  cases values.find? fun s => s.snaps || s.passesForCells with
  | some t => rfl
  | none =>
    rw [Option.none_or, List.find?_singleton]
    split <;> simp [silent]

theorem mem_stacked : m ∈ stacked ctx primary values ↔
    m = primary ∨ (∃ s, snapping? ctx values = some s ∧ m = cell ctx s primary.name) ∨
      ∃ s ∈ values, s.draws = true ∧ (m = Brush.background ctx s ∨ m = Brush.foreground ctx s) := by
  simp only [stacked, List.mem_append, List.mem_cons, List.mem_reverse, List.mem_map, List.mem_filter,
    Option.mem_toList]
  grind

theorem hasCells_stacked (named : primary.name = ctx.nameOf "marks") (items : isPath ctx.view.mark = false) :
    hasCells primary.name (stacked ctx primary values) =
      (values.find? fun s => s.snaps || s.passesForCells).isSome := by
  unfold hasCells
  rw [Bool.eq_iff_iff, List.any_eq_true]
  constructor
  · rintro ⟨m, there, sounds⟩
    rw [Bool.and_eq_true, bne_iff_ne] at sounds
    obtain ⟨other, sounds⟩ := sounds
    rcases mem_stacked.mp there with rfl | ⟨s, snaps, rfl⟩ | ⟨s, listed, draws, brush⟩
    · exact absurd rfl other
    · unfold snapping? at snaps
      rw [items, if_neg Bool.false_ne_true] at snaps
      exact Option.isSome_of_mem (Option.mem_filter_iff.mp snaps).1
    · have passes : s.passesForCells = true := by
        rw [Selection.passesForCells, draws, Bool.true_and]
        rcases brush with rfl | rfl
        · rwa [Brush.background_name, Refinement.contains_continued s (by decide)] at sounds
        · rwa [Brush.foreground_name, Refinement.contains_continued s (by decide)] at sounds
      exact List.find?_isSome.mpr ⟨s, listed, by simp [passes]⟩
  · intro found
    obtain ⟨s, first⟩ := Option.isSome_iff_exists.mp found
    cases snaps : s.snaps with
    | true =>
      have chosen : snapping? ctx values = some s := by
        simp [snapping?, items, first, snaps]
      refine ⟨_, mem_stacked.mpr (.inr (.inl ⟨s, chosen, rfl⟩)), ?_⟩
      rw [named, Bool.and_eq_true, bne_iff_ne]
      exact ⟨Refinement.cell_ne_primary ctx s _, Refinement.contains_cell ctx s _⟩
    | false =>
      have passes : s.passesForCells = true := by simpa [snaps] using List.find?_some first
      unfold Selection.passesForCells at passes
      rw [Bool.and_eq_true] at passes
      obtain ⟨draws, sounds⟩ := passes
      have listed := List.mem_of_find?_eq_some first
      refine ⟨_, mem_stacked.mpr (.inr (.inr ⟨s, listed, draws, .inl rfl⟩)), ?_⟩
      rw [named, Bool.and_eq_true, bne_iff_ne]
      refine ⟨Brush.background_ne_primary ctx s, ?_⟩
      rwa [Brush.background_name, Refinement.contains_continued s (by decide)]

theorem nearestMarks_stacked (named : primary.name = ctx.nameOf "marks") (snaps : s.snaps = true) :
    nearestMarks ctx s (stacked ctx primary values) = stacked ctx primary (values ++ [s]) := by
  have draws := Selection.draws_of_snaps snaps
  have brushes : (values ++ [s]).filter Selection.draws = values.filter Selection.draws := by
    simp [draws]
  unfold nearestMarks
  cases items : isPath ctx.view.mark with
  | true =>
    rw [if_pos rfl]
    simp [stacked, snapping?, items, draws]
  | false =>
    have cells : hasCells primary.name (stacked ctx primary values) = _ := hasCells_stacked named items
    simp only [Bool.false_eq_true, if_false, ← named, cells]
    cases first : values.find? fun s => s.snaps || s.passesForCells with
    | some t =>
      have same : snapping? ctx (values ++ [s]) = snapping? ctx values := by
        simp [snapping?, List.find?_append, first]
      rw [Option.isSome_some, if_pos rfl]
      simp only [stacked, brushes, same]
    | none =>
      have before : snapping? ctx values = none := by simp [snapping?, first]
      have now : snapping? ctx (values ++ [s]) = some s := by
        simp [snapping?, items, List.find?_append, first, snaps]
      rw [Option.isSome_none, if_neg Bool.false_ne_true]
      simp only [stacked, brushes, before, now, Option.toList_none, Option.toList_some, List.map_nil,
        List.nil_append, List.map_cons, List.singleton_append]
      apply placed_behind
      · intro m there
        rw [named]
        exact brushes_other (Brush.background_ne_primary ctx) (List.mem_reverse.mp there)
      · intro m there
        rw [named]
        exact brushes_other (Brush.foreground_ne_primary ctx) there

theorem surround_stacked (named : primary.name = ctx.nameOf "marks") :
    surround ctx (stacked ctx primary values) s = stacked ctx primary (values ++ [s]) := by
  unfold surround
  cases draws : s.draws with
  | true =>
    have silent := s.snaps_of_draws draws
    simp [stacked, snapping?_append silent, draws]
  | false =>
    cases snaps : s.snaps with
    | true => exact nearestMarks_stacked named snaps
    | false => simp [stacked, snapping?_append snaps, draws]

theorem stacked_nil (ctx : UnitContext) (primary : Mark) : stacked ctx primary [] = [primary] := by
  simp [stacked, snapping?]

theorem foldl_stacked (named : primary.name = ctx.nameOf "marks") (more : List Selection) :
    more.foldl (surround ctx) (stacked ctx primary values) = stacked ctx primary (values ++ more) := by
  induction more generalizing values with
  | nil => rw [List.foldl_nil, List.append_nil]
  | cons s more ih =>
    rw [List.foldl_cons, surround_stacked named, ih, List.append_assoc, List.singleton_append]

theorem marks_eq_ok_iff (named : primary.name = ctx.nameOf "marks") :
    selections.marks ctx .builtIn [primary] = .ok after ↔
      selections.Registered ∧ after = stacked ctx primary selections.values := by
  have each : ∀ before s after, addMarks ctx .builtIn before s = .ok after ↔
      (Registry.builtIn.find? s.type).isSome = true ∧ after = surround ctx before s :=
    fun _ _ _ => addMarks_eq_ok_iff
  have run : selections.values.foldl (surround ctx) (stacked ctx primary []) = _ :=
    foldl_stacked named selections.values
  rw [stacked_nil, List.nil_append] at run
  unfold Selections.marks
  rw [foldlM_eq_ok_iff each, run]
  rfl

theorem mem_snapping? (chosen : snapping? ctx values = some s) :
    isPath ctx.view.mark = false ∧ s ∈ values ∧ s.snaps = true := by
  unfold snapping? at chosen
  split at chosen
  · cases chosen
  · next items =>
    obtain ⟨first, snaps⟩ := Option.filter_eq_some_iff.mp chosen
    exact ⟨Bool.eq_false_iff.mpr items, List.mem_of_find?_eq_some first, snaps⟩

def drawn (selections : Selections) : List Selection := selections.values.filter Selection.draws

-- The brushes that are drawn stand around the view's own mark, later ones around earlier ones, and cells for
-- at most one selection stand right behind it. Marks that are paths have none.
theorem marks_enclose (named : primary.name = ctx.nameOf "marks") :
    ((∃ after, selections.marks ctx .builtIn [primary] = .ok after) ↔ selections.Registered) ∧
    ∀ after, selections.marks ctx .builtIn [primary] = .ok after →
      ∃ cells : List Mark, after = (selections.drawn.map (Brush.background ctx)).reverse ++
          primary :: (cells ++ selections.drawn.map (Brush.foreground ctx)) ∧
        cells.length ≤ 1 ∧
        (∀ m ∈ cells, ∃ s ∈ selections.values, s.snaps = true ∧ m = cell ctx s primary.name) ∧
        (isPath ctx.view.mark = true → cells = []) := by
  constructor
  · constructor
    · rintro ⟨after, done⟩
      exact ((marks_eq_ok_iff named).mp done).1
    · exact fun registered => ⟨_, (marks_eq_ok_iff named).mpr ⟨registered, rfl⟩⟩
  · intro after done
    obtain ⟨_, rfl⟩ := (marks_eq_ok_iff named).mp done
    refine ⟨_, rfl, ?_, ?_, ?_⟩
    · rw [List.length_map]
      cases snapping? ctx selections.values <;> simp
    · intro m there
      obtain ⟨s, chosen, rfl⟩ := List.mem_map.mp there
      obtain ⟨_, listed, snaps⟩ := mem_snapping? (Option.mem_toList.mp chosen)
      exact ⟨s, listed, snaps, rfl⟩
    · intro path
      simp [snapping?, path]

def brushesAndPick : Selections :=
  (((Keyed.empty.put "far" { name := "far", type := "interval" }).put "pick"
    { name := "pick", type := "multi", nearest := true }).put "near" { name := "near", type := "interval" }).put
      "pan" { name := "pan", type := "interval", bind := some .scales }

def carsMark : Mark := .drawn "cars_marks" "point" "cars_main"

theorem marks_enclose_pick : carsMark.name = amongOthers.nameOf "marks" ∧
    ∃ after, brushesAndPick.marks amongOthers .builtIn [carsMark] = .ok after ∧
      (∃ cells : List Mark, after = (brushesAndPick.drawn.map (Brush.background amongOthers)).reverse ++
        carsMark :: (cells ++ brushesAndPick.drawn.map (Brush.foreground amongOthers))) ∧
      after.map Mark.name = ["near_brush_bg", "far_brush_bg", "cars_marks", "cars_voronoi", "far_brush",
        "near_brush"] := by
  have named : carsMark.name = amongOthers.nameOf "marks" := by decide +kernel
  have listed : (brushesAndPick.marks amongOthers .builtIn [carsMark]).toOption.map (·.map Mark.name) =
      some ["near_brush_bg", "far_brush_bg", "cars_marks", "cars_voronoi", "far_brush", "near_brush"] := by
    decide +kernel
  obtain ⟨after, done, names⟩ := Flow.Forest.exists_ok listed
  obtain ⟨cells, encloses, _⟩ := (marks_enclose named).2 after done
  exact ⟨named, after, done, ⟨cells, encloses⟩, names⟩

def IsCell (ctx : UnitContext) (m : Mark) : Prop := ∃ s, m = cell ctx s (ctx.nameOf "marks")

theorem exists_cell_iff (named : primary.name = ctx.nameOf "marks") :
    (∃ m ∈ stacked ctx primary values, IsCell ctx m) ↔ (snapping? ctx values).isSome = true := by
  constructor
  · rintro ⟨m, there, s, same⟩
    rcases mem_stacked.mp there with rfl | ⟨t, chosen, _⟩ | ⟨t, _, _, rfl | rfl⟩
    · rw [same] at named
      exact absurd named (Refinement.cell_ne_primary ctx s _)
    · rw [chosen]
      rfl
    · exact absurd (congrArg Mark.kind same) (by decide : "rect" ≠ "path")
    · exact absurd (congrArg Mark.kind same) (by decide : "rect" ≠ "path")
  · intro some
    obtain ⟨s, chosen⟩ := Option.isSome_iff_exists.mp some
    exact ⟨_, mem_stacked.mpr (.inr (.inl ⟨s, chosen, rfl⟩)), s, by rw [named]⟩

theorem snapping?_isSome_iff (items : isPath ctx.view.mark = false) :
    (snapping? ctx values).isSome = true ↔ ∃ ahead s behind, values = ahead ++ s :: behind ∧
      s.snaps = true ∧ ∀ t ∈ ahead, t.draws = true → contains cellMark.toList t.name.toList = false := by
  unfold snapping?
  rw [items, if_neg Bool.false_ne_true]
  constructor
  · intro some
    obtain ⟨s, chosen⟩ := Option.isSome_iff_exists.mp some
    obtain ⟨first, snaps⟩ := Option.filter_eq_some_iff.mp chosen
    obtain ⟨_, ahead, behind, split, others⟩ := List.find?_eq_some_iff_append.mp first
    refine ⟨ahead, s, behind, split, snaps, ?_⟩
    intro t listed draws
    have quiet : (t.snaps || t.passesForCells) = false := by simpa using others t listed
    simpa [Selection.passesForCells, draws] using (Bool.or_eq_false_iff.mp quiet).2
  · rintro ⟨ahead, s, behind, rfl, snaps, plain⟩
    rw [List.find?_append]
    cases first : ahead.find? fun s => s.snaps || s.passesForCells with
    | none => simp [snaps]
    | some t =>
      -- The first one before it snaps as well, because no brush there passes for cells.
      have listed := List.mem_of_find?_eq_some first
      have passes : t.passesForCells = false := by
        unfold Selection.passesForCells
        cases draws : t.draws with
        | false => rfl
        | true => rw [plain t listed draws, Bool.and_false]
      have either := List.find?_some first
      rw [passes, Bool.or_false] at either
      simp [either]

-- There are cells exactly where a selection snaps and no brush before it has a name that sounds like cells.
theorem marks_cells_iff (named : primary.name = ctx.nameOf "marks") (items : isPath ctx.view.mark = false)
    (registered : selections.Registered) :
    ∃ after, selections.marks ctx .builtIn [primary] = .ok after ∧
      ((∃ m ∈ after, IsCell ctx m) ↔ ∃ ahead s behind, selections.values = ahead ++ s :: behind ∧
        s.snaps = true ∧ ∀ t ∈ ahead, t.draws = true → contains cellMark.toList t.name.toList = false) :=
  ⟨_, (marks_eq_ok_iff named).mpr ⟨registered, rfl⟩,
    (exists_cell_iff named).trans (snapping?_isSome_iff items)⟩

theorem marks_cells_iff_pick : carsMark.name = amongOthers.nameOf "marks" ∧
    isPath amongOthers.view.mark = false ∧ brushesAndPick.Registered ∧
    ∃ after, brushesAndPick.marks amongOthers .builtIn [carsMark] = .ok after ∧
      ∃ m ∈ after, IsCell amongOthers m := by
  have named : carsMark.name = amongOthers.nameOf "marks" := by decide +kernel
  have items : isPath amongOthers.view.mark = false := by decide
  have registered : brushesAndPick.Registered := by
    unfold Registered
    decide +kernel
  obtain ⟨after, done, cells⟩ := marks_cells_iff named items registered
  refine ⟨named, items, registered, after, done, cells.mpr ?_⟩
  exact ⟨brushesAndPick.values.take 1, _, brushesAndPick.values.drop 2, rfl, rfl, by decide +kernel⟩

-- A selection snaps and has no cells to snap to.
def WithoutCells (ctx : UnitContext) : Prop :=
  ∃ selections after, ofView ctx .builtIn {} = .ok selections ∧ (∃ s ∈ selections.values, s.snaps = true) ∧
    selections.marks ctx .builtIn [carsMark] = .ok after ∧ carsMark.name = ctx.nameOf "marks" ∧
    isPath ctx.view.mark = false ∧ ¬ ∃ m ∈ after, IsCell ctx m

theorem withoutCells_of_brushed (items : isPath ctx.view.mark = false)
    (named : carsMark.name = ctx.nameOf "marks")
    (computed : (ofView ctx .builtIn {}).toOption.map (fun selections =>
      (selections.values.map Selection.snaps,
        (selections.marks ctx .builtIn [carsMark]).toOption.map (·.map Mark.kind))) =
      some ([false, true], some ["rect", "point", "rect"])) : WithoutCells ctx := by
  obtain ⟨selections, made, same⟩ := Flow.Forest.exists_ok computed
  obtain ⟨snapping, drawn⟩ := Prod.mk.inj same
  obtain ⟨after, done, kinds⟩ := Flow.Forest.exists_ok drawn
  have one : true ∈ selections.values.map Selection.snaps := snapping ▸ by decide
  obtain ⟨s, listed, snaps⟩ := List.mem_map.mp one
  refine ⟨selections, after, made, ⟨s, listed, snaps⟩, done, named, items, ?_⟩
  rintro ⟨m, there, s, rfl⟩
  have path := List.mem_map_of_mem (f := Mark.kind) there
  rw [kinds] at path
  exact absurd path (by decide : "path" ∉ ["rect", "point", "rect"])

-- Where its name contains the name of cells, the brush is taken for them.
theorem marks_cells_missing :
    WithoutCells (brushThenPick "voronoi" "pick") ∧ WithoutCells (brushThenPick "a_voronoi" "pick") := by
  constructor
  · exact withoutCells_of_brushed rfl (by decide +kernel) (by decide +kernel)
  · exact withoutCells_of_brushed rfl (by decide +kernel) (by decide +kernel)

end Selections

end Viewflow
