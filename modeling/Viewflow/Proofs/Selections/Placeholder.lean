import Viewflow.Proofs.Text.Quoted
import Viewflow.Selection.Domain

namespace Viewflow.SelectionDomain
open Json (Document)

def textParts (d : SelectionDomain) : List (String × String) :=
  d.encoding.toList.map (fun c => ("encoding", c.name)) ++ d.field.toList.map (("field", ·)) ++
    [("selection", d.selection)]

theorem object_toFields (d : SelectionDomain) :
    Json.object d.toFields = .obj (Json.textFields d.textParts) := by
  have first : "encoding" < "selection" := by decide
  have second : "field" < "selection" := by decide
  have between : ¬"field" < "encoding" := by decide
  obtain ⟨selection, encoding, field⟩ := d
  cases encoding <;> cases field <;>
    simp [Json.object, toFields, Json.sortFields, Json.insertField, textParts, Json.textFields, first,
      second, between]

theorem ofDocument?_textParts (d : SelectionDomain) :
    SelectionDomain.ofDocument? (Json.textDocument d.textParts) = some d := by
  obtain ⟨selection, encoding, field⟩ := d
  cases encoding with
  | none => cases field <;> rfl
  | some c =>
    have known := Channel.ofName?_name c
    cases field <;>
      simp [SelectionDomain.ofDocument?, readRecord, Json.textDocument, textParts, Json.asRecord,
        Json.Record.required, Json.Record.optional, Json.Record.once?, Json.asString,
        Json.asNullable, Json.asName, known]

theorem placeText?_placeholder (d : SelectionDomain) :
    placeText? d.placeholder = some (Json.object d.toFields).text.toList := by
  have marked : placeMark.isPrefixOf (placeMark ++ (Json.object d.toFields).text.toList) = true :=
    List.isPrefixOf_iff_prefix.mpr (List.prefix_append ..)
  simp [placeText?, placeholder, Output.signalReference, marked]

theorem ofPlaceholder_placeholder (d : SelectionDomain) : ofPlaceholder d.placeholder = .ok d := by
  have read : (Document.ofChars? (Json.object d.toFields).text.toList).bind
      SelectionDomain.ofDocument? = some d := by
    have parts : ∃ f rest, d.textParts = f :: rest := by
      obtain ⟨selection, encoding, field⟩ := d
      cases encoding <;> cases field <;> exact ⟨_, _, rfl⟩
    obtain ⟨f, rest, parts⟩ := parts
    rw [object_toFields, parts, Json.ofChars?_textFields, ← parts, Option.bind_some,
      ofDocument?_textParts]
  unfold ofPlaceholder
  rw [placeText?_placeholder]
  simp only [read]

-- A placeholder is told from other signals, and no two domains share one.
theorem placeholder_stands (d : SelectionDomain) :
    isPlaceholder d.placeholder = true ∧ ofPlaceholder d.placeholder = .ok d ∧
      ∀ d' : SelectionDomain, d'.placeholder = d.placeholder → d' = d := by
  have read := ofPlaceholder_placeholder d
  refine ⟨?_, read, ?_⟩
  · rw [isPlaceholder, placeText?_placeholder, Option.isSome_some]
  · intro d' same
    have read' := ofPlaceholder_placeholder d'
    rw [same, read] at read'
    exact (Except.ok.inj read').symm

end Viewflow.SelectionDomain
