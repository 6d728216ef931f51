import Viewflow.Text.AccessPath

namespace Viewflow.Text.AccessPath

variable {inner taken rest : List Char}

-- In plain text these have to stand behind a backslash. A closing bracket means nothing outside of brackets.
def isSpecial (c : Char) : Bool := c == '.' || c == '[' || c == '\\'

def escaped (segment : List Char) : List Char :=
  segment.flatMap fun c => if isSpecial c then ['\\', c] else [c]

inductive Spelling where
  | bracketed (segment : String) (unclosed : ']' ∉ segment.toList)
  | plain (segment : String) (present : segment ≠ "")

namespace Spelling

def segment : Spelling → String
  | .bracketed segment _ => segment
  | .plain segment _ => segment

def chars : Spelling → List Char
  | .bracketed segment _ => '[' :: '"' :: segment.toList ++ ['"', ']']
  | .plain segment _ => escaped segment.toList

def later : Spelling → List Char
  | .bracketed segment unclosed => (bracketed segment unclosed).chars
  | .plain segment present => '.' :: (plain segment present).chars

theorem exists_segment (wanted : String) : ∃ s : Spelling, s.segment = wanted := by
  by_cases empty : wanted = ""
  · exact ⟨.bracketed "" (by simp), empty.symm⟩
  · exact ⟨.plain wanted empty, rfl⟩

end Spelling

def spelled : List Spelling → List Char
  | [] => []
  | first :: others => first.chars ++ others.flatMap Spelling.later

def spell (parts : List Spelling) : String := String.ofList (spelled parts)

theorem scanPlain_escaped (current segment rest : List Char) :
    scanPlain current (escaped segment ++ rest) = scanPlain (current ++ segment) rest := by
  induction segment generalizing current with
  | nil => simp [escaped]
  | cons c segment ih =>
    have apart : escaped (c :: segment) = (if isSpecial c then ['\\', c] else [c]) ++ escaped segment := rfl
    have one : scanPlain current (escaped (c :: segment) ++ rest) =
        scanPlain (current ++ [c]) (escaped segment ++ rest) := by
      rw [apart]
      cases special : isSpecial c with
      | true => simp [scanPlain, scanEscaped]
      | false =>
        simp only [isSpecial, Bool.or_eq_false_iff, beq_eq_false_iff_ne] at special
        simp [scanPlain, special]
    rw [one, ih, List.append_assoc, List.singleton_append]

theorem scanBracket_append (unclosed : ']' ∉ taken) :
    scanBracket inner (taken ++ ']' :: rest) = unquoted (inner ++ taken) :: scanPlain [] rest := by
  induction taken generalizing inner with
  | nil => simp [scanBracket]
  | cons c taken ih =>
    simp only [List.mem_cons, not_or] at unclosed
    rw [List.cons_append, scanBracket, if_neg (Ne.symm unclosed.1), ih unclosed.2, List.append_assoc,
      List.singleton_append]

theorem unquoted_quoted (segment : List Char) : unquoted ('"' :: segment ++ ['"']) = segment := by
  simp [unquoted, isQuoteMark]

theorem scanBracket_quoted (unclosed : ']' ∉ taken) :
    scanBracket [] ('"' :: taken ++ ['"', ']'] ++ rest) = taken :: scanPlain [] rest := by
  have whole : ']' ∉ '"' :: taken ++ ['"'] := by simp [unclosed]
  have apart : '"' :: taken ++ ['"', ']'] ++ rest = ('"' :: taken ++ ['"']) ++ ']' :: rest := by simp
  rw [apart, scanBracket_append whole, List.nil_append, unquoted_quoted]

open Spelling in
-- Whatever was being read ends where the next segment begins.
theorem scanPlain_later (current : List Char) (parts : List Spelling) :
    scanPlain current (parts.flatMap Spelling.later) =
      ended current (parts.map fun s => s.segment.toList) := by
  induction parts generalizing current with
  | nil => rfl
  | cons s parts ih =>
    rw [List.flatMap_cons, List.map_cons]
    cases s with
    | bracketed segment unclosed =>
      calc scanPlain current ('[' :: ('"' :: segment.toList ++ ['"', ']'] ++ parts.flatMap later))
        _ = ended current (scanBracket [] ('"' :: segment.toList ++ ['"', ']'] ++ parts.flatMap later)) := by
          simp [scanPlain]
        _ = ended current (segment.toList :: scanPlain [] (parts.flatMap later)) := by
          rw [scanBracket_quoted unclosed]
        _ = _ := by rw [ih]; rfl
    | plain segment present =>
      have shown : segment.toList ≠ [] := by simpa using present
      calc scanPlain current ('.' :: (escaped segment.toList ++ parts.flatMap later))
        _ = ended current (scanPlain [] (escaped segment.toList ++ parts.flatMap later)) := by
          simp [scanPlain]
        _ = ended current (scanPlain segment.toList (parts.flatMap later)) := by
          rw [scanPlain_escaped, List.nil_append]
        _ = _ := by rw [ih, ended.eq_def segment.toList, if_neg shown]; rfl

theorem split_spelled (parts : List Spelling) :
    split (spelled parts) = parts.map fun s => s.segment.toList := by
  have dotted : scanPlain [] (spelled parts) = scanPlain [] (parts.flatMap Spelling.later) := by
    cases parts with
    | nil => rfl
    | cons s parts =>
      cases s with
      | bracketed segment unclosed => rfl
      | plain segment present => simp [spelled, Spelling.later, scanPlain, ended]
  exact dotted.trans (scanPlain_later [] parts)

-- Paths reach every field: each list of segments can be spelled, and every spelling of it reads as the list.
theorem segments_spell :
    (∀ parts : List Spelling, segments (spell parts) = parts.map Spelling.segment) ∧
      ∀ wanted : List String, ∃ parts : List Spelling, parts.map Spelling.segment = wanted := by
  constructor
  · intro parts
    rw [segments, spell, String.toList_ofList, split_spelled, List.map_map]
    exact List.map_congr_left fun s _ => String.ofList_toList
  · intro wanted
    induction wanted with
    | nil => exact ⟨[], rfl⟩
    | cons first others ih =>
      obtain ⟨s, rfl⟩ := Spelling.exists_segment first
      obtain ⟨parts, rfl⟩ := ih
      exact ⟨s :: parts, rfl⟩

example : spell [.plain "a.b" (by decide), .bracketed "[c" (by decide), .plain "d" (by decide)] =
    "a\\.b[\"[c\"].d" := by decide +kernel

end Viewflow.Text.AccessPath
