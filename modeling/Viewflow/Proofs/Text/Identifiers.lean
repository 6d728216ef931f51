import Viewflow.Text.Basic

namespace Viewflow.Text

variable {cs ds : List Char} {s t : String}

structure SafeChars (cs : List Char) : Prop where
  each : ∀ c ∈ cs, isIdentifierChar c = true
  front : ∀ c, cs.head? = some c → c.isDigit = false

def soften (cs : List Char) : List Char := cs.map fun c => if isIdentifierChar c then c else '_'

theorem soften_each (cs : List Char) : ∀ c ∈ soften cs, isIdentifierChar c = true := by
  intro c member
  obtain ⟨d, _, rfl⟩ := List.mem_map.mp member
  split
  · assumption
  · rfl

theorem soften_eq (safe : ∀ c ∈ cs, isIdentifierChar c = true) : soften cs = cs := by
  conv => rhs; rw [← List.map_id cs]
  refine List.map_congr_left fun c member => ?_
  rw [if_pos (safe c member), id]

theorem identifierChars_def (cs : List Char) : identifierChars cs =
    match soften cs with
    | [] => []
    | c :: rest => if c.isDigit then '_' :: c :: rest else c :: rest := by
  unfold identifierChars
  change (match soften cs with | [] => [] | c :: _ => if c.isDigit then '_' :: soften cs else soften cs) = _
  cases soften cs <;> rfl

theorem safeChars_identifierChars (cs : List Char) : SafeChars (identifierChars cs) := by
  have safe := soften_each cs
  rw [identifierChars_def]
  cases kept : soften cs with
  | nil => exact ⟨by simp, by simp⟩
  | cons c rest =>
    rw [kept] at safe
    by_cases digit : c.isDigit = true
    · simp only [digit, if_true]
      exact ⟨List.forall_mem_cons.mpr ⟨rfl, safe⟩, by simp⟩
    · simp only [digit, Bool.false_eq_true, if_false]
      refine ⟨safe, ?_⟩
      intro d head
      cases head
      exact Bool.eq_false_iff.mpr digit

theorem identifierChars_eq (front : ∀ c, (soften cs).head? = some c → c.isDigit = false) :
    identifierChars cs = soften cs := by
  rw [identifierChars_def]
  cases kept : soften cs with
  | nil => rfl
  | cons c rest =>
    rw [kept] at front
    simp only [front c rfl, Bool.false_eq_true, if_false]

theorem SafeChars.identifierChars (safe : SafeChars cs) : Text.identifierChars cs = cs := by
  have same := soften_eq safe.each
  rw [identifierChars_eq (same.symm ▸ safe.front), same]

theorem SafeChars.append (safe : SafeChars cs) (safe' : SafeChars ds) : SafeChars (cs ++ ds) where
  each c member := (List.mem_append.mp member).elim (safe.each c) (safe'.each c)
  front c head := by
    cases cs with
    | nil => exact safe'.front c head
    | cons _ _ => exact safe.front c head

theorem identifier_eq_iff : identifier s = s ↔ SafeChars s.toList := by
  constructor
  · intro same
    rw [← same, identifier, String.toList_ofList]
    exact safeChars_identifierChars _
  · intro safe
    rw [identifier, safe.identifierChars, String.ofList_toList]

@[simp] theorem identifier_identifier (s : String) : identifier (identifier s) = identifier s := by
  rw [identifier_eq_iff, identifier, String.toList_ofList]
  exact safeChars_identifierChars _

theorem identifier_append (safe : identifier s = s) (safe' : SafeChars t.toList) :
    identifier (s ++ t) = s ++ t := by
  rw [identifier_eq_iff] at safe ⊢
  rw [String.toList_append]
  exact safe.append safe'

def softened (s : String) : String := String.ofList (soften s.toList)

theorem identifierChars_underscore (cs ds : List Char) :
    identifierChars (cs ++ '_' :: ds) = identifierChars cs ++ '_' :: soften ds := by
  have split : soften (cs ++ '_' :: ds) = soften cs ++ '_' :: soften ds := by
    unfold soften
    rw [List.map_append, List.map_cons]
    rfl
  rw [identifierChars_def, identifierChars_def, split]
  cases soften cs with
  | nil => rfl
  | cons c rest =>
    simp only [List.cons_append]
    split <;> rfl

theorem underscore_mem_identifier (there : '_' ∈ s.toList) : '_' ∈ (identifier s).toList := by
  obtain ⟨front, back, split⟩ := List.append_of_mem there
  rw [identifier, String.toList_ofList, split, identifierChars_underscore]
  exact List.mem_append_right _ (List.mem_cons_self ..)

theorem identifier_underscore (s t : String) :
    identifier (s ++ "_" ++ t) = identifier s ++ "_" ++ softened t := by
  apply String.toList_inj.mp
  simpa [identifier, softened] using identifierChars_underscore s.toList t.toList

theorem ne_underscore (s more : String) : s ≠ s ++ "_" ++ more := by
  intro same
  have length := congrArg (fun s : String => s.toList.length) same
  simp only [String.toList_append, List.length_append] at length
  have one : "_".toList.length = 1 := rfl
  omega

theorem underscore_shorter {a b s t : String} (same : a ++ "_" ++ s = b ++ "_" ++ t)
    (shorter : a.toList.length ≤ b.toList.length) :
    (a = b ∧ s = t) ∨ ∃ more, b = a ++ "_" ++ more ∧ s = more ++ "_" ++ t := by
  have chars : a.toList ++ '_' :: s.toList = b.toList ++ '_' :: t.toList := by
    simpa using congrArg String.toList same
  have front : a.toList <+: b.toList :=
    List.prefix_of_prefix_length_le ⟨'_' :: s.toList, chars⟩ (List.prefix_append ..) shorter
  obtain ⟨more, split⟩ := front
  rw [← split, List.append_assoc, List.append_cancel_left_eq] at chars
  cases more with
  | nil =>
    refine .inl ⟨String.toList_inj.mp ?_, String.toList_inj.mp ?_⟩
    · rwa [List.append_nil] at split
    · exact (List.cons.inj chars).2
  | cons c more =>
    obtain ⟨rfl, rest⟩ := List.cons.inj chars
    refine .inr ⟨String.ofList more, String.toList_inj.mp ?_, String.toList_inj.mp ?_⟩
    · simp [← split]
    · simp [rest]

-- Two texts with an underscore inside are the same where both parts are, or where the first part of one
-- goes on over the underscore of the other.
theorem underscore_eq_iff {a b s t : String} : a ++ "_" ++ s = b ++ "_" ++ t ↔
    (a = b ∧ s = t) ∨ (∃ more, a = b ++ "_" ++ more ∧ t = more ++ "_" ++ s) ∨
      ∃ more, b = a ++ "_" ++ more ∧ s = more ++ "_" ++ t := by
  constructor
  · intro same
    rcases Nat.le_total a.toList.length b.toList.length with shorter | longer
    · exact (underscore_shorter same shorter).imp_right .inr
    · rcases underscore_shorter same.symm longer with ⟨front, back⟩ | more
      · exact .inl ⟨front.symm, back.symm⟩
      · exact .inr (.inl more)
  · rintro (⟨rfl, rfl⟩ | ⟨more, rfl, rfl⟩ | ⟨more, rfl, rfl⟩) <;> simp only [String.append_assoc]

end Viewflow.Text
