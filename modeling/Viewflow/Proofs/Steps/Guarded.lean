import Viewflow.Flow.Step
import Viewflow.Proofs.Text.DatumFields

namespace Viewflow.Flow.Step

open Text.AccessPath (segments guarded)
open Text.DatumField (Plain datumWord fields joins names scan)

variable {path first expression : String} {later : List String} {rest : List Char}

-- This field is the first that is read. It is the only one unless a later segment has the word for the datum
-- in it, so always where no segment is later.
structure ReadsFirst (expression first : String) (later : List String) : Prop where
  front : (expressionFields expression).toList.head? = some first
  alone : (∀ s ∈ later, ¬ datumWord <:+: s.toList) → (expressionFields expression).toList = [first]

theorem ReadsFirst.of_accessor (parts : segments path = first :: later) (plain : Plain first.toList)
    (text : names expression.toList = names ((guarded path "datum").toList ++ rest))
    (behind : ¬ datumWord <+: rest) (closed : scan 0 rest = []) : ReadsFirst expression first later := by
  constructor
  · obtain ⟨others, opened⟩ := Text.DatumField.guarded_front parts
    rw [opened, List.append_assoc, Text.DatumField.names_accessor plain] at text
    rw [expressionFields, fields, text, List.map_cons, String.ofList_toList]
    exact Distinct.head?_ofList ..
  · intro silent
    rw [Text.DatumField.finds_guarded parts plain silent rest behind, closed, List.append_nil] at text
    rw [expressionFields, fields, text, List.map_replicate, String.ofList_toList]
    exact Distinct.toList_ofList_replicate ..

theorem joins_function (coercion : Coercion) : ∀ c ∈ coercion.function.toList, joins c = true := by
  apply List.all_eq_true.mp
  cases coercion <;> decide +kernel

-- The accessor of a path reads the first segment first, on its own and in every formula that coerces the path.
theorem expressionFields_guarded (path first : String) (later : List String)
    (parts : segments path = first :: later) (plain : Plain first.toList) :
    ReadsFirst (guarded path "datum") first later ∧
      ∀ (fields : Keyed String Coercion) (coercion : Coercion), (path, coercion) ∈ fields.entries →
        ∃ expression, expression = coercion.function ++ "(" ++ guarded path "datum" ++ ")" ∧
          .formula expression path ∈ (Step.parse fields).transforms ∧ ReadsFirst expression first later := by
  refine ⟨?_, ?_⟩
  · exact .of_accessor parts plain (by rw [List.append_nil]) (by decide) rfl
  · intro fields coercion coerced
    refine ⟨_, rfl, List.mem_map.mpr ⟨(path, coercion), coerced, rfl⟩, ?_⟩
    have called : names (coercion.function ++ "(" ++ guarded path "datum" ++ ")").toList =
        names ((guarded path "datum").toList ++ [')']) := by
      simpa using Text.DatumField.names_call (joins_function coercion)
    exact .of_accessor parts plain called (by decide) (by decide)

example : (expressionFields (guarded "a.b datum\\.c" "datum")).toList = ["a", "c"] := by decide +kernel

-- A segment that looks like an access to the datum, and has a quote of the other kind, is one name all the same.
theorem expressionFields_guarded_lookalike :
    segments "it's datum\\.age.zip" = ["it's datum.age", "zip"] ∧
      Plain "it's datum.age".toList ∧
      (expressionFields "datum[\"it's datum.age\"] && datum[\"it's datum.age\"][\"zip\"]").toList =
        ["it's datum.age"] ∧
      ∃ expression, expression = "toNumber(datum[\"it's datum.age\"] && datum[\"it's datum.age\"][\"zip\"])" ∧
        .formula expression "it's datum\\.age.zip" ∈
          (Step.parse (.ofList [("it's datum\\.age.zip", .number)])).transforms ∧
        (expressionFields expression).toList = ["it's datum.age"] := by
  have parts : segments "it's datum\\.age.zip" = ["it's datum.age", "zip"] := by decide +kernel
  have plain : Plain "it's datum.age".toList := by simp [Plain]
  have silent : ∀ s ∈ ["zip"], ¬ datumWord <:+: s.toList := by decide +kernel
  have written : guarded "it's datum\\.age.zip" "datum" =
      "datum[\"it's datum.age\"] && datum[\"it's datum.age\"][\"zip\"]" := by decide +kernel
  obtain ⟨bare, called⟩ := expressionFields_guarded _ _ _ parts plain
  obtain ⟨expression, call, emitted, reads⟩ :=
    called (.ofList [("it's datum\\.age.zip", .number)]) .number (by decide +kernel)
  rw [written] at bare call
  exact ⟨parts, plain, bare.alone silent, expression, call, emitted, reads.alone silent⟩

end Viewflow.Flow.Step
