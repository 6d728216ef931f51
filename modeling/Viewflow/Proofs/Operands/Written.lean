import Viewflow.Operand

namespace Viewflow.Operand

variable {o : Operand String} {v : Json} {key : String} {fields : List (String × Json)}
  {readings : List FieldReading}

def operators : List String := ["not", "and", "or"]

def namesOne (keys : List String) : Bool :=
  (operators.filter keys.contains).length == 1 && keys.all operators.contains

mutual

def isPlain : Json → Bool
  | .arr items => eachIsPlain items
  | .obj fields => namesOne (fields.map Prod.fst) && fieldsArePlain fields
  | _ => true

def eachIsPlain : List Json → Bool
  | [] => true
  | item :: rest => isPlain item && eachIsPlain rest

def fieldsArePlain : List (String × Json) → Bool
  | [] => true
  | (_, value) :: rest => isPlain value && fieldsArePlain rest

end

theorem exists_of_namesOne {keys : List String} (one : namesOne keys = true) :
    ∃ key, ∀ k ∈ keys, k = key := by
  simp only [namesOne, Bool.and_eq_true, beq_iff_eq, List.length_eq_one_iff, List.all_eq_true,
    List.contains_iff_mem] at one
  obtain ⟨⟨key, only⟩, known⟩ := one
  refine ⟨key, fun k listed => ?_⟩
  have named : k ∈ operators.filter keys.contains :=
    List.mem_filter.mpr ⟨known k listed, List.contains_iff_mem.mpr listed⟩
  rw [only] at named
  exact List.mem_singleton.mp named

theorem FieldReading.at?_eq_some {r : FieldReading} (found : FieldReading.at? readings key = some r) :
    readings.filter (fun r => r.key = key) = [r] := by
  unfold FieldReading.at? at found
  split at found
  · next only => exact only.trans (congrArg ([·]) (Option.some.inj found))
  · cases found

theorem ofReadings?_cases (read : ofReadings? readings = some o) :
    (∃ r o', readings.filter (fun r => r.key = "not") = [r] ∧ r.one = some o' ∧ o = .not o') ∨
      (∃ r os, readings.filter (fun r => r.key = "and") = [r] ∧ r.many = some os ∧ o = .allOf os) ∨
      (∃ r os, readings.filter (fun r => r.key = "or") = [r] ∧ r.many = some os ∧ o = .anyOf os) := by
  unfold ofReadings? at read
  simp only at read
  split at read
  · next o' negated =>
    obtain ⟨r, found, one⟩ := Option.bind_eq_some_iff.mp negated
    exact .inl ⟨r, o', FieldReading.at?_eq_some found, one, (Option.some.inj read).symm⟩
  · next os _ every =>
    obtain ⟨r, found, many⟩ := Option.bind_eq_some_iff.mp every
    exact .inr (.inl ⟨r, os, FieldReading.at?_eq_some found, many, (Option.some.inj read).symm⟩)
  · next os _ _ either =>
    obtain ⟨r, found, many⟩ := Option.bind_eq_some_iff.mp either
    exact .inr (.inr ⟨r, os, FieldReading.at?_eq_some found, many, (Option.some.inj read).symm⟩)
  · cases read

theorem readFields_eq (fields : List (String × Json)) :
    readFields fields = fields.map fun f => ⟨f.1, ofJson? f.2, manyOfJson? f.2⟩ := by
  induction fields with
  | nil => rfl
  | cons f rest ih => exact congrArg (_ :: ·) ih

theorem field_of_filter {r : FieldReading} (one : namesOne (fields.map Prod.fst) = true)
    (only : (readFields fields).filter (fun r => r.key = key) = [r]) :
    ∃ value, fields = [(key, value)] ∧ r = ⟨key, ofJson? value, manyOfJson? value⟩ := by
  obtain ⟨name, same⟩ := exists_of_namesOne one
  have member : r ∈ (readFields fields).filter fun r => r.key = key := by simp [only]
  obtain ⟨listed, named⟩ := List.mem_filter.mp member
  rw [readFields_eq] at listed only
  obtain ⟨f, found, rfl⟩ := List.mem_map.mp listed
  have whole : ∀ f ∈ fields, f.1 = key := by
    intro g other
    rw [same g.1 (List.mem_map_of_mem other), ← same f.1 (List.mem_map_of_mem found)]
    exact of_decide_eq_true named
  have all : ∀ r ∈ fields.map fun f => (⟨f.1, ofJson? f.2, manyOfJson? f.2⟩ : FieldReading),
      decide (r.key = key) = true := by
    intro r member
    obtain ⟨g, other, rfl⟩ := List.mem_map.mp member
    exact decide_eq_true (whole g other)
  rw [List.filter_eq_self.mpr all] at only
  obtain ⟨g, rfl, reading⟩ := List.map_eq_singleton_iff.mp only
  have named := whole g (List.mem_singleton_self g)
  subst named
  exact ⟨g.2, rfl, reading.symm⟩

theorem manyOfJson?_eq_some {os : List (Operand String)} (read : manyOfJson? v = some os) :
    ∃ items, v = .arr items ∧ eachOfJson? items = some os := by
  cases v with
  | arr items => exact ⟨items, rfl, read⟩
  | _ => cases read

theorem ofJson?_shape (plain : isPlain v = true) (read : ofJson? v = some o) :
    (∃ s, v = .str s ∧ o = .leaf s) ∨
      (∃ value o', v = .obj [("not", value)] ∧ isPlain value = true ∧ ofJson? value = some o' ∧
        o = .not o') ∨
      (∃ items os, v = .obj [("and", .arr items)] ∧ eachIsPlain items = true ∧
        eachOfJson? items = some os ∧ o = .allOf os) ∨
      (∃ items os, v = .obj [("or", .arr items)] ∧ eachIsPlain items = true ∧
        eachOfJson? items = some os ∧ o = .anyOf os) := by
  cases v with
  | str s => exact .inl ⟨s, rfl, (Option.some.inj read).symm⟩
  | obj fields =>
    obtain ⟨one, inside⟩ := Bool.and_eq_true_iff.mp plain
    rw [ofJson?] at read
    obtain ⟨r, o', only, part, rfl⟩ | ⟨r, os, only, parts, rfl⟩ | ⟨r, os, only, parts, rfl⟩ :=
      ofReadings?_cases read
    · obtain ⟨value, rfl, rfl⟩ := field_of_filter one only
      refine .inr (.inl ⟨value, o', rfl, ?_, part, rfl⟩)
      simpa [fieldsArePlain] using inside
    · obtain ⟨value, rfl, rfl⟩ := field_of_filter one only
      obtain ⟨items, rfl, each⟩ := manyOfJson?_eq_some parts
      refine .inr (.inr (.inl ⟨items, os, rfl, ?_, each, rfl⟩))
      simpa [fieldsArePlain, isPlain] using inside
    · obtain ⟨value, rfl, rfl⟩ := field_of_filter one only
      obtain ⟨items, rfl, each⟩ := manyOfJson?_eq_some parts
      refine .inr (.inr (.inr ⟨items, os, rfl, ?_, each, rfl⟩))
      simpa [fieldsArePlain, isPlain] using inside
  | null | bool _ | num _ | arr _ => cases read

mutual

theorem eq_toJson : ∀ (o : Operand String) (v : Json), isPlain v = true → ofJson? v = some o →
    v = o.toJson
  | o, v, plain, read => by
    obtain ⟨s, rfl, rfl⟩ | ⟨value, o', rfl, inner, part, rfl⟩ | ⟨items, os, rfl, inner, parts, rfl⟩ |
      ⟨items, os, rfl, inner, parts, rfl⟩ := ofJson?_shape plain read
    · rfl
    · rw [toJson, ← eq_toJson o' value inner part]
    · rw [toJson, ← eq_eachToJson os items inner parts]
    · rw [toJson, ← eq_eachToJson os items inner parts]

theorem eq_eachToJson : ∀ (os : List (Operand String)) (items : List Json), eachIsPlain items = true →
    eachOfJson? items = some os → items = eachToJson os
  | os, [], _, read => by
    cases read
    rfl
  | os, item :: rest, plain, read => by
    obtain ⟨first, others⟩ := Bool.and_eq_true_iff.mp plain
    obtain ⟨o, one, read⟩ := Option.bind_eq_some_iff.mp read
    obtain ⟨os, more, read⟩ := Option.bind_eq_some_iff.mp read
    cases read
    rw [eachToJson, ← eq_toJson o item first one, ← eq_eachToJson os rest others more]

end

mutual

theorem ofJson?_toJson : ∀ o : Operand String, ofJson? o.toJson = some o
  | .leaf s => rfl
  | .not o => by simp [toJson, ofJson?, readFields, ofReadings?, FieldReading.at?, ofJson?_toJson o]
  | .allOf os => by
    simp [toJson, ofJson?, readFields, ofReadings?, FieldReading.at?, manyOfJson?,
      eachOfJson?_eachToJson os]
  | .anyOf os => by
    simp [toJson, ofJson?, readFields, ofReadings?, FieldReading.at?, manyOfJson?,
      eachOfJson?_eachToJson os]

theorem eachOfJson?_eachToJson : ∀ os : List (Operand String), eachOfJson? (eachToJson os) = some os
  | [] => rfl
  | o :: os => by simp [eachToJson, eachOfJson?, ofJson?_toJson o, eachOfJson?_eachToJson os]

end

mutual

theorem isPlain_toJson : ∀ o : Operand String, isPlain o.toJson = true
  | .leaf s => rfl
  | .not o => by simp [toJson, isPlain, namesOne, operators, fieldsArePlain, isPlain_toJson o]
  | .allOf os => by
    simp [toJson, isPlain, namesOne, operators, fieldsArePlain, eachIsPlain_eachToJson os]
  | .anyOf os => by
    simp [toJson, isPlain, namesOne, operators, fieldsArePlain, eachIsPlain_eachToJson os]

theorem eachIsPlain_eachToJson : ∀ os : List (Operand String), eachIsPlain (eachToJson os) = true
  | [] => rfl
  | o :: os => by simp [eachToJson, eachIsPlain, isPlain_toJson o, eachIsPlain_eachToJson os]

end

-- A tree is read back from what it is written as, and of the values that read as the tree this is the one
-- that names one operator in each of its objects.
theorem ofJson?_iff_toJson (o : Operand String) (v : Json) :
    isPlain v = true ∧ ofJson? v = some o ↔ v = o.toJson := by
  constructor
  · rintro ⟨plain, read⟩
    exact eq_toJson o v plain read
  · rintro rfl
    exact ⟨isPlain_toJson o, ofJson?_toJson o⟩

-- Beside a second operator, one whose operand is unreadable is passed over.
example : ofJson? (.obj [("not", .arr [.str "A"]), ("and", .arr [.str "B"])]) = some (.allOf [.leaf "B"]) :=
  rfl

end Viewflow.Operand
