import Viewflow.Text.Basic

namespace Viewflow.Text

variable {cs ds blanks : List Char} {c : Char}

def Blanks (cs : List Char) : Prop := ∀ c ∈ cs, isBlank c = true

structure Trimmed (cs : List Char) : Prop where
  front : ∀ c ∈ cs.head?, isBlank c = false
  back : ∀ c ∈ cs.getLast?, isBlank c = false

theorem Trimmed.single (shown : isBlank c = false) : Trimmed [c] := by
  constructor
  · rintro _ ⟨⟩
    exact shown
  · rintro _ ⟨⟩
    exact shown

theorem Trimmed.append (one : Trimmed cs) (two : Trimmed ds) : Trimmed (cs ++ ds) := by
  constructor
  · intro c first
    rcases Option.or_eq_some_iff.mp (List.head?_append.symm.trans first) with here | ⟨_, there⟩
    · exact one.front c here
    · exact two.front c there
  · intro c last
    rcases Option.or_eq_some_iff.mp (List.getLast?_append.symm.trans last) with here | ⟨_, there⟩
    · exact two.back c here
    · exact one.back c there

theorem Trimmed.enclose (one : Trimmed cs) (two : Trimmed ds) (shown : cs ≠ []) (shown' : ds ≠ [])
    (middle : List Char) : Trimmed (cs ++ middle ++ ds) := by
  constructor
  · intro c first
    rw [List.append_assoc] at first
    rcases Option.or_eq_some_iff.mp (List.head?_append.symm.trans first) with here | ⟨none, _⟩
    · exact one.front c here
    · exact absurd (List.head?_eq_none_iff.mp none) shown
  · intro c last
    rcases Option.or_eq_some_iff.mp (List.getLast?_append.symm.trans last) with here | ⟨none, _⟩
    · exact two.back c here
    · exact absurd (List.getLast?_eq_none_iff.mp none) shown'

theorem head?_trimStart (cs : List Char) : ∀ c ∈ (trimStart cs).head?, isBlank c = false := by
  intro c first
  have stopped := List.head?_dropWhile_not isBlank cs
  rw [show (cs.dropWhile isBlank).head? = some c from first] at stopped
  exact stopped

theorem trimStart_of_head? (shown : ∀ c ∈ cs.head?, isBlank c = false) : trimStart cs = cs := by
  cases cs with
  | nil => rfl
  | cons c rest => exact List.dropWhile_cons_of_neg (Bool.eq_false_iff.mp (shown c rfl))

theorem trimStart_blanks (blank : Blanks blanks) (cs : List Char) :
    trimStart (blanks ++ cs) = trimStart cs :=
  List.dropWhile_append_of_pos blank

theorem trimEnd_cons_of_shown (shown : isBlank c = false) (rest : List Char) :
    trimEnd (c :: rest) = c :: trimEnd rest := by
  rw [trimEnd]
  cases trimEnd rest with
  | nil => simp [shown]
  | cons d kept => rfl

theorem trimEnd_append (shown : isBlank c = false) (cs rest : List Char) :
    trimEnd (cs ++ c :: rest) = cs ++ c :: trimEnd rest := by
  induction cs with
  | nil => exact trimEnd_cons_of_shown shown rest
  | cons d cs ih =>
    rw [List.cons_append, trimEnd, ih]
    cases cs <;> rfl

theorem getLast?_trimEnd (cs : List Char) : ∀ c ∈ (trimEnd cs).getLast?, isBlank c = false := by
  induction cs with
  | nil => nofun
  | cons d cs ih =>
    rw [trimEnd]
    cases kept : trimEnd cs with
    | nil =>
      by_cases blank : isBlank d = true
      · simp [blank]
      · simp [blank]
    | cons e rest =>
      rw [kept] at ih
      simpa using ih

theorem head?_trimEnd (cs : List Char) : (trimEnd cs).head? = none ∨ (trimEnd cs).head? = cs.head? := by
  cases cs with
  | nil => exact .inl rfl
  | cons d cs =>
    rw [trimEnd]
    cases trimEnd cs with
    | nil => cases isBlank d <;> simp
    | cons e rest => exact .inr rfl

theorem trimEnd_of_getLast? (shown : ∀ c ∈ cs.getLast?, isBlank c = false) : trimEnd cs = cs := by
  rcases List.eq_nil_or_concat cs with rfl | ⟨front, last, rfl⟩
  · rfl
  · rw [List.concat_eq_append] at shown ⊢
    exact trimEnd_append (shown last (by simp)) front []

theorem trimmed_trim (cs : List Char) : Trimmed (trim cs) where
  front := by
    intro c first
    rcases head?_trimEnd (trimStart cs) with none | same
    · rw [trim, none] at first
      cases first
    · rw [trim, same] at first
      exact head?_trimStart cs c first
  back := getLast?_trimEnd (trimStart cs)

theorem Trimmed.trim_eq (trimmed : Trimmed cs) : trim cs = cs := by
  rw [trim, trimStart_of_head? trimmed.front, trimEnd_of_getLast? trimmed.back]

theorem Trimmed.trim_blanks (trimmed : Trimmed cs) (blank : Blanks blanks) : trim (blanks ++ cs) = cs := by
  rw [trim, trimStart_blanks blank]
  exact trimmed.trim_eq

end Viewflow.Text
