import Viewflow.Proofs.Text.Flattened
import Viewflow.Proofs.Text.Values
import Viewflow.Text.DatumField

namespace Viewflow.Text.DatumField

variable {c mark : Char} {cs ds word name found rest : List Char} {known more : List (List Char)}
  {segment : String}

theorem not_datum_cons (other : c ≠ 'd') : ¬ datumWord <+: c :: cs := by
  intro front
  exact other (List.cons_prefix_cons.mp front).1.symm

theorem access?_eq_none (other : ¬ datumWord <+: cs) : access? cs = none := by
  have missing : after? datumWord cs = none := by
    rw [after?, if_neg (by rwa [List.isPrefixOf_iff_prefix])]
  rw [access?, missing]

theorem scan_joins (joined : joins c = true) : scan 0 (c :: cs) = scan 0 cs := by
  simp [scan, separated?, joined]

theorem scan_silent (other : ¬ datumWord <+: cs) : scan 0 (c :: cs) = scan 0 cs := by
  simp [scan, separated?, access?_eq_none other]

theorem scan_separator (apart : joins c = false) (dot : c ≠ '.') : scan 0 (c :: cs) = names cs := by
  have step : separated? (c :: cs) = access? cs := by simp [separated?, apart, dot]
  simp only [scan, step, names]

theorem scan_word (word : ∀ c ∈ cs, joins c = true) : scan 0 (cs ++ rest) = scan 0 rest := by
  induction cs with
  | nil => rfl
  | cons c cs ih =>
    rw [List.forall_mem_cons] at word
    rw [List.cons_append, scan_joins word.1, ih word.2]

theorem scan_append (found rest : List Char) : scan found.length (found ++ rest) = scan 0 rest := by
  induction found with
  | nil => rfl
  | cons c found ih => exact ih

theorem names_found (access : access? (found ++ rest) = some (name, rest)) :
    names (found ++ rest) = name :: scan 0 rest := by
  have skipped : (found ++ rest).length - rest.length = found.length := by simp
  simp only [names, access, skipped, scan_append]

theorem after?_append (word rest : List Char) : after? word (word ++ rest) = some rest := by
  rw [after?, if_pos (List.isPrefixOf_iff_prefix.mpr (List.prefix_append ..)), List.drop_left]

theorem access?_datum (dot : c ≠ '.') (bracket : c ≠ '[') : access? (datumWord ++ c :: rest) = none := by
  rw [access?, after?_append]
  split <;> simp_all

-- What is called is a word, even where it goes on behind the one for the datum.
theorem access?_word (word : ∀ c ∈ cs, joins c = true) : access? (cs ++ '(' :: rest) = none := by
  by_cases front : datumWord <+: cs ++ '(' :: rest
  · obtain ⟨behind, same⟩ := front
    rw [← same]
    rcases List.append_eq_append_iff.mp same with ⟨longer, split, tail⟩ | ⟨shorter, split, tail⟩
    · rw [tail]
      cases longer with
      | nil => exact access?_datum (by decide) (by decide)
      | cons c longer =>
        have joined : joins c = true := word c (by simp [split])
        refine access?_datum ?_ ?_
        · rintro rfl
          exact absurd joined (by decide)
        · rintro rfl
          exact absurd joined (by decide)
    · cases shorter with
      | nil =>
        rw [List.nil_append] at tail
        exact tail ▸ access?_datum (by decide) (by decide)
      | cons c shorter =>
        obtain ⟨rfl, _⟩ := List.cons.inj tail
        have called : '(' ∈ datumWord := by simp [split]
        exact absurd called (by decide)
  · exact access?_eq_none front

theorem names_call (word : ∀ c ∈ cs, joins c = true) : names (cs ++ '(' :: rest) = names rest := by
  rw [names, access?_word word]
  exact (scan_word word).trans (scan_separator (by decide) (by decide))

section Quoted

theorem joins_hexDigit : ∀ n < 16, joins (hexDigit n) = true := by decide

theorem escapeChar_cases (c : Char) : escapeChar c = [c] ∨
    (∃ mark, mark ≠ 'd' ∧ escapeChar c = ['\\', mark]) ∨
      ∃ digits, (∀ d ∈ digits, joins d = true) ∧ escapeChar c = '\\' :: 'u' :: digits := by
  unfold escapeChar
  iterate 7
    split
    · exact .inr (.inl ⟨_, by decide, rfl⟩)
  split
  · next control =>
    refine .inr (.inr ⟨['0', '0', hexDigit (c.toNat / 16), hexDigit (c.toNat % 16)], ?_, rfl⟩)
    simp only [List.forall_mem_cons]
    exact ⟨by decide, by decide, joins_hexDigit _ (by omega), joins_hexDigit _ (by omega), by simp⟩
  · exact .inl rfl

-- The number may end in a `d`, but the word would have to begin behind a separator.
theorem scan_escapeChar (c : Char) (silent : ¬ datumWord <+: rest) :
    scan 0 (escapeChar c ++ rest) = scan 0 rest := by
  rcases escapeChar_cases c with itself | ⟨mark, other, escaped⟩ | ⟨digits, joined, escaped⟩
  · rw [itself]
    exact scan_silent silent
  · rw [escaped]
    exact (scan_silent (not_datum_cons other)).trans (scan_silent silent)
  · rw [escaped]
    have behind : scan 0 ('u' :: (digits ++ rest)) = scan 0 (digits ++ rest) := scan_joins (by decide)
    exact (scan_silent (not_datum_cons (by decide))).trans (behind.trans (scan_word joined))

-- What begins a quoted text, and is neither a quote nor escaped, begins the text itself.
theorem prefix_of_escaped (unquoted : '"' ∉ word) (unescaped : '\\' ∉ word)
    (front : word <+: cs.flatMap escapeChar ++ '"' :: rest) : word <+: cs := by
  induction word generalizing cs with
  | nil => exact List.nil_prefix
  | cons w word ih =>
    simp only [List.mem_cons, not_or] at unquoted unescaped
    cases cs with
    | nil => exact absurd (List.cons_prefix_cons.mp front).1.symm unquoted.1
    | cons c cs =>
      rw [List.flatMap_cons, List.append_assoc] at front
      rcases escapeChar_cases c with itself | ⟨_, _, escaped⟩ | ⟨_, _, escaped⟩
      · rw [itself, List.singleton_append, List.cons_prefix_cons] at front
        exact List.cons_prefix_cons.mpr ⟨front.1, ih unquoted.2 unescaped.2 front.2⟩
      · rw [escaped] at front
        exact absurd (List.cons_prefix_cons.mp front).1.symm unescaped.1
      · rw [escaped] at front
        exact absurd (List.cons_prefix_cons.mp front).1.symm unescaped.1

theorem not_datum_escaped (silent : ¬ datumWord <:+: cs) :
    ¬ datumWord <+: cs.flatMap escapeChar ++ '"' :: rest := by
  intro front
  exact silent (prefix_of_escaped (by decide) (by decide) front).isInfix

theorem scan_escaped (silent : ¬ datumWord <:+: cs) :
    scan 0 (cs.flatMap escapeChar ++ '"' :: rest) = scan 0 ('"' :: rest) := by
  induction cs with
  | nil => rfl
  | cons c cs ih =>
    have later : ¬ datumWord <:+: cs := fun inside => silent (List.infix_cons inside)
    rw [List.flatMap_cons, List.append_assoc, scan_escapeChar c (not_datum_escaped later), ih later]

def bracket (segment : String) : List Char := '[' :: (quote segment).toList ++ [']']

theorem scan_bracket (silent : ¬ datumWord <:+: segment.toList) (behind : ¬ datumWord <+: rest) :
    scan 0 (bracket segment ++ rest) = scan 0 rest := by
  have shape : bracket segment ++ rest =
      '[' :: '"' :: (segment.toList.flatMap escapeChar ++ '"' :: ']' :: rest) := by
    simp [bracket, toList_quote]
  rw [shape, scan_silent (not_datum_cons (by decide)), scan_silent (not_datum_escaped silent),
    scan_escaped silent, scan_silent (not_datum_cons (by decide)), scan_silent behind]

def Plain (cs : List Char) : Prop := ∀ c ∈ cs, c ≠ '"' ∧ c ≠ '\\' ∧ 0x20 ≤ c.toNat

theorem escapeChar_plain (plain : c ≠ '"' ∧ c ≠ '\\' ∧ 0x20 ≤ c.toNat) : escapeChar c = [c] := by
  obtain ⟨quote, backslash, shown⟩ := plain
  have others : ∀ d : Char, d.toNat < 0x20 → c ≠ d := by
    rintro d control rfl
    omega
  rw [escapeChar, if_neg quote, if_neg backslash, if_neg (others _ (by decide)), if_neg (others _ (by decide)),
    if_neg (others _ (by decide)), if_neg (others _ (by decide)), if_neg (others _ (by decide)), if_neg (by omega)]

theorem Plain.escaped (plain : Plain cs) : cs.flatMap escapeChar = cs := by
  induction cs with
  | nil => rfl
  | cons c cs ih =>
    obtain ⟨first, others⟩ := List.forall_mem_cons.mp plain
    rw [List.flatMap_cons, escapeChar_plain first, ih others, List.singleton_append]

theorem quotedName?_append (unquoted : mark ∉ name) :
    quotedName? mark (name ++ mark :: ']' :: rest) = some (name, rest) := by
  have taken : ∀ c ∈ name, (c != mark) = true := by
    intro c member
    exact bne_iff_ne.mpr fun same => unquoted (same ▸ member)
  have bracket : isBlank ']' = false := by decide
  simp [quotedName?, List.dropWhile_append_of_pos taken, List.takeWhile_append_of_pos taken, trimStart, bracket]

theorem access?_bracket (plain : Plain segment.toList) :
    access? (datumWord ++ bracket segment ++ rest) = some (segment.toList, rest) := by
  have unquoted : '"' ∉ segment.toList := fun member => (plain _ member).1 rfl
  have quoteShown : isBlank '"' = false := by decide
  have shape : datumWord ++ bracket segment ++ rest =
      datumWord ++ '[' :: '"' :: (segment.toList ++ '"' :: ']' :: rest) := by
    simp [bracket, toList_quote, plain.escaped]
  rw [shape, access?, after?_append]
  simp [bracketed?, trimStart, quoteShown, quotedName?_append unquoted]

theorem names_accessor (plain : Plain segment.toList) (rest : List Char) :
    names (datumWord ++ bracket segment ++ rest) = segment.toList :: scan 0 rest :=
  names_found (access?_bracket plain)

end Quoted

-- Text in which these names are found, whatever stands behind it but the word itself.
def Finds (cs : List Char) (known : List (List Char)) : Prop :=
  ∀ rest, ¬ datumWord <+: rest → names (cs ++ rest) = known ++ scan 0 rest

namespace Finds

theorem bracketed (finds : Finds cs known) (silent : ¬ datumWord <:+: segment.toList) :
    Finds (cs ++ bracket segment) known := by
  intro rest behind
  have apart : ¬ datumWord <+: bracket segment ++ rest := not_datum_cons (by decide)
  rw [List.append_assoc, finds _ apart, scan_bracket silent behind]

theorem and (finds : Finds cs known) (finds' : Finds ds more) :
    Finds (cs ++ " && ".toList ++ ds) (known ++ more) := by
  intro rest behind
  calc names (cs ++ " && ".toList ++ ds ++ rest)
    _ = names (cs ++ ' ' :: '&' :: '&' :: ' ' :: (ds ++ rest)) := by simp
    _ = known ++ scan 0 (' ' :: '&' :: '&' :: ' ' :: (ds ++ rest)) := finds _ (not_datum_cons (by decide))
    _ = known ++ scan 0 (' ' :: (ds ++ rest)) := by
      rw [scan_silent (not_datum_cons (by decide)), scan_silent (not_datum_cons (by decide)),
        scan_silent (not_datum_cons (by decide))]
    _ = known ++ names (ds ++ rest) := by rw [scan_separator (by decide) (by decide)]
    _ = known ++ more ++ scan 0 rest := by rw [finds' rest behind, List.append_assoc]

theorem accessors {reached : String} {later : List String} (finds : Finds reached.toList known)
    (silent : ∀ s ∈ later, ¬ datumWord <:+: s.toList) :
    ∀ text ∈ AccessPath.accessors reached later, Finds text.toList known := by
  induction later generalizing reached with
  | nil => simp [AccessPath.accessors]
  | cons segment later ih =>
    rw [List.forall_mem_cons] at silent
    have longer : Finds (reached ++ "[" ++ quote segment ++ "]").toList known := by
      simpa [bracket] using finds.bracketed silent.1
    exact List.forall_mem_cons.mpr ⟨longer, ih longer silent.2⟩

theorem joined {texts : List String} (each : ∀ text ∈ texts, Finds text.toList [name]) (some : texts ≠ []) :
    Finds (joined " && " texts).toList (List.replicate texts.length name) := by
  induction texts with
  | nil => exact absurd rfl some
  | cons first texts ih =>
    obtain ⟨one, others⟩ := List.forall_mem_cons.mp each
    cases texts with
    | nil => simpa [Text.joined] using one
    | cons second texts =>
      rw [AccessPath.toList_joined_cons]
      exact one.and (ih others (by simp))

end Finds

section Guarded

open AccessPath (segments guarded)

variable {path first : String} {later : List String}

theorem toList_accessor (segment : String) :
    ("datum" ++ "[" ++ quote segment ++ "]").toList = datumWord ++ bracket segment := by
  simp [bracket, datumWord]

theorem length_accessors (reached : String) (later : List String) :
    (AccessPath.accessors reached later).length = later.length := by
  induction later generalizing reached with
  | nil => rfl
  | cons segment later ih => rw [AccessPath.accessors, List.length_cons, ih, List.length_cons]

theorem guarded_front (parts : segments path = first :: later) :
    ∃ behind, (guarded path "datum").toList = datumWord ++ bracket first ++ behind := by
  rw [guarded, parts, AccessPath.accessors]
  cases AccessPath.accessors ("datum" ++ "[" ++ quote first ++ "]") later with
  | nil => exact ⟨[], by simp only [joined, toList_accessor, List.append_nil]⟩
  | cons second others =>
    refine ⟨" && ".toList ++ (joined " && " (second :: others)).toList, ?_⟩
    rw [AccessPath.toList_joined_cons, toList_accessor, List.append_assoc _ " && ".toList]

-- Each guard begins with the first segment, which is all that it reads unless a later one has the word in it.
theorem finds_guarded (parts : segments path = first :: later) (plain : Plain first.toList)
    (silent : ∀ s ∈ later, ¬ datumWord <:+: s.toList) :
    Finds (guarded path "datum").toList (List.replicate (later.length + 1) first.toList) := by
  have one : Finds ("datum" ++ "[" ++ quote first ++ "]").toList [first.toList] := by
    intro rest _
    rw [toList_accessor, names_accessor plain, List.singleton_append]
  have each : ∀ text ∈ AccessPath.accessors "datum" (first :: later), Finds text.toList [first.toList] :=
    List.forall_mem_cons.mpr ⟨one, one.accessors silent⟩
  have all := Finds.joined each (by simp [AccessPath.accessors])
  rwa [length_accessors, List.length_cons, ← parts] at all

end Guarded

end Viewflow.Text.DatumField
