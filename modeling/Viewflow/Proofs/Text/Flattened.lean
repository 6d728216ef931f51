import Viewflow.Proofs.Text.Paths

namespace Viewflow.Text.AccessPath

variable {text front back head : List Char} {later : List (List Char)}

def DotsOnly (text : List Char) : Prop := '\\' ∉ text ∧ '[' ∉ text

theorem DotsOnly.cons {c : Char} (plain : c ≠ '\\' ∧ c ≠ '[') (only : DotsOnly text) :
    DotsOnly (c :: text) := by
  simp [DotsOnly, only.1, only.2, Ne.symm plain.1, Ne.symm plain.2]

theorem escapeDots_cons (c : Char) (text : List Char) :
    escapeDots (c :: text) = (if c = '.' then ['\\', '.'] else [c]) ++ escapeDots text := rfl

theorem escapeDots_append (front back : List Char) :
    escapeDots (front ++ back) = escapeDots front ++ escapeDots back :=
  List.flatMap_append

theorem escaped_eq (only : DotsOnly text) : escaped text = escapeDots text := by
  unfold escaped escapeDots
  rw [List.flatMap_def, List.flatMap_def]
  congr 1
  apply List.map_congr_left
  intro c member
  have slash : c ≠ '\\' := fun same => only.1 (same ▸ member)
  have bracket : c ≠ '[' := fun same => only.2 (same ▸ member)
  by_cases dot : c = '.' <;> simp [isSpecial, dot, bracket, slash]

theorem split_escapeDots (present : text ≠ []) (only : DotsOnly text) :
    split (escapeDots text) = [text] := by
  rw [← escaped_eq only, ← List.append_nil (escaped text), split, scanPlain_escaped]
  simp [scanPlain, ended, present]

theorem length_escapeDots (text : List Char) :
    (escapeDots text).length = text.length + text.count '.' := by
  induction text with
  | nil => rfl
  | cons c text ih =>
    rw [escapeDots_cons, List.length_append, ih, List.length_cons]
    by_cases dot : c = '.'
    · simp [dot]
      omega
    · simp [dot]
      omega

theorem count_escapeDots (text : List Char) :
    (escapeDots text).count '\\' = text.count '\\' + text.count '.' := by
  induction text with
  | nil => rfl
  | cons c text ih =>
    rw [escapeDots_cons, List.count_append, ih]
    by_cases dot : c = '.'
    · simp [dot]
      omega
    · simp [dot, List.count_cons]
      omega

-- What stands in front of a text within its own escaped form are backslashes, since nothing else is added to
-- it: the characters and the backslashes become more by the same number.
theorem backslash_of_shifted (shifted : escapeDots text = front ++ text ++ back) :
    ∀ c ∈ front, c = '\\' := by
  have sizes := congrArg List.length shifted
  have slashes := congrArg (List.count '\\') shifted
  rw [length_escapeDots, List.length_append, List.length_append] at sizes
  rw [count_escapeDots, List.count_append, List.count_append] at slashes
  have inFront := List.count_le_length (a := '\\') (l := front)
  have inBack := List.count_le_length (a := '\\') (l := back)
  have every : front.count '\\' = front.length := by omega
  intro c member
  exact (List.count_eq_length.mp every c member).symm

theorem exists_unquoted (inner : List Char) : ∃ front back, inner = front ++ unquoted inner ++ back := by
  fun_cases unquoted inner with
  | case1 => exact ⟨[], [], rfl⟩
  | case2 first rest mark last _ =>
    obtain ⟨kept, rfl⟩ := List.getLast?_eq_some_iff.mp last
    exact ⟨[first], [mark], by simp⟩
  | case3 | case4 => exact ⟨[], [], by simp⟩

theorem scanBracket_head (inner text : List Char) :
    ∃ taken rest later, text = taken ++ rest ∧
      scanBracket inner text = unquoted (inner ++ taken) :: later := by
  induction text generalizing inner with
  | nil => exact ⟨[], [], [], rfl, by simp [scanBracket]⟩
  | cons c text ih =>
    unfold scanBracket
    by_cases close : c = ']'
    · exact ⟨[], c :: text, scanPlain [] text, rfl, by simp [close]⟩
    · obtain ⟨taken, rest, later, apart, scanned⟩ := ih (inner ++ [c])
      exact ⟨c :: taken, rest, later, by simp [apart], by simp [close, scanned]⟩

-- A bracket at the front is lost, and what is escaped behind it does not make up for it.
theorem scanBracket_ne (text : List Char) : scanBracket [] (escapeDots text) ≠ ['[' :: text] := by
  intro scanned
  obtain ⟨taken, rest, later, apart, headed⟩ := scanBracket_head [] (escapeDots text)
  rw [headed, List.nil_append] at scanned
  obtain ⟨front, back, quoted⟩ := exists_unquoted taken
  rw [(List.cons.inj scanned).1] at quoted
  have shifted : escapeDots text = (front ++ ['[']) ++ text ++ (back ++ rest) := by
    rw [apart, quoted]
    simp
  have slash := backslash_of_shifted shifted '[' (by simp)
  cases slash

theorem scanPlain_escapeDots_cons (current : List Char) (c : Char) (text : List Char) :
    scanPlain current (escapeDots (c :: text)) =
      if c = '\\' then scanEscaped current (escapeDots text)
      else if c = '[' then ended current (scanBracket [] (escapeDots text))
      else scanPlain (current ++ [c]) (escapeDots text) := by
  rw [escapeDots_cons]
  by_cases dot : c = '.'
  · simp [dot, scanPlain, scanEscaped]
  · rw [if_neg dot, List.singleton_append, scanPlain, if_neg dot]

theorem scanEscaped_escapeDots_cons (current : List Char) (c : Char) (text : List Char) :
    scanEscaped current (escapeDots (c :: text)) =
      if c = '.' then (current ++ ['\\']) :: scanPlain [] (escapeDots text)
      else scanPlain (current ++ [c]) (escapeDots text) := by
  rw [escapeDots_cons]
  by_cases dot : c = '.'
  · simp [dot, scanEscaped, scanPlain, ended]
  · rw [if_neg dot, if_neg dot, List.singleton_append, scanEscaped]

mutual

-- No more is read into the segment at hand than the text has, and less where something in it is special.
theorem scanPlain_head : ∀ current text : List Char, current ≠ [] →
    scanPlain current (escapeDots text) = head :: later →
      head.length ≤ current.length + text.length ∧
        (head.length = current.length + text.length → DotsOnly text)
  | current, [], begun, scanned => by
    have done : current :: [] = head :: later := by simpa [escapeDots, scanPlain, ended, begun] using scanned
    cases done
    simp [DotsOnly]
  | current, c :: text, begun, scanned => by
    rw [scanPlain_escapeDots_cons] at scanned
    simp only [List.length_cons]
    by_cases slash : c = '\\'
    · rw [if_pos slash] at scanned
      have short := scanEscaped_head current text scanned
      exact ⟨by omega, fun full => by omega⟩
    · rw [if_neg slash] at scanned
      by_cases bracket : c = '['
      · rw [if_pos bracket, ended, if_neg begun] at scanned
        cases scanned
        exact ⟨by omega, fun full => by omega⟩
      · rw [if_neg bracket] at scanned
        obtain ⟨short, only⟩ := scanPlain_head (current ++ [c]) text (by simp) scanned
        simp only [List.length_append, List.length_singleton] at short only
        exact ⟨by omega, fun full => (only (by omega)).cons ⟨slash, bracket⟩⟩

theorem scanEscaped_head : ∀ current text : List Char,
    scanEscaped current (escapeDots text) = head :: later → head.length ≤ current.length + text.length
  | current, [], scanned => by
    change ended current [] = head :: later at scanned
    unfold ended at scanned
    split at scanned
    · cases scanned
    · cases scanned
      simp
  | current, c :: text, scanned => by
    rw [scanEscaped_escapeDots_cons] at scanned
    by_cases dot : c = '.'
    · rw [if_pos dot] at scanned
      cases scanned
      simp
    · rw [if_neg dot] at scanned
      have short := (scanPlain_head (current ++ [c]) text (by simp) scanned).1
      simp only [List.length_append, List.length_cons, List.length_nil] at short ⊢
      omega

end

theorem split_escapeDots_iff (present : text ≠ []) :
    split (escapeDots text) = [text] ↔ DotsOnly text := by
  refine ⟨?_, split_escapeDots present⟩
  intro scanned
  cases text with
  | nil => exact absurd rfl present
  | cons c text =>
    rw [split, scanPlain_escapeDots_cons] at scanned
    by_cases slash : c = '\\'
    · rw [if_pos slash] at scanned
      have short := scanEscaped_head [] text scanned
      simp only [List.length_cons, List.length_nil] at short
      omega
    · rw [if_neg slash] at scanned
      by_cases bracket : c = '['
      · rw [if_pos bracket, bracket] at scanned
        exact absurd scanned (scanBracket_ne text)
      · rw [if_neg bracket] at scanned
        have only := (scanPlain_head [c] text (by simp) scanned).2 (by simp [Nat.add_comm])
        exact only.cons ⟨slash, bracket⟩

theorem toList_joined_cons (separator first second : String) (others : List String) :
    (joined separator (first :: second :: others)).toList =
      first.toList ++ separator.toList ++ (joined separator (second :: others)).toList := by
  simp [joined]

theorem dotsOnly_append : DotsOnly (front ++ back) ↔ DotsOnly front ∧ DotsOnly back := by
  simp only [DotsOnly, List.mem_append, not_or]
  exact and_and_and_comm

theorem dotsOnly_joined (parts : List String) :
    DotsOnly (joined "." parts).toList ↔ ∀ s ∈ parts, DotsOnly s.toList := by
  induction parts with
  | nil => simp [joined, DotsOnly]
  | cons first parts ih =>
    cases parts with
    | nil => simp [joined]
    | cons second others =>
      have dot : DotsOnly ".".toList := by simp [DotsOnly]
      rw [toList_joined_cons, dotsOnly_append, dotsOnly_append, ih]
      simp only [dot, and_true, List.forall_mem_cons]

theorem joined_ne_nil {parts : List String} (some : parts ≠ []) (full : "" ∉ parts) :
    (joined "." parts).toList ≠ [] := by
  cases parts with
  | nil => exact absurd rfl some
  | cons first parts =>
    cases parts with
    | nil =>
      intro empty
      exact full (List.mem_singleton.mpr (String.toList_eq_nil_iff.mp empty).symm)
    | cons second others => simp [toList_joined_cons]

theorem joined_escapeDots (parts : List String) :
    joined "\\." (parts.map fun s => String.ofList (escapeDots s.toList)) =
      String.ofList (escapeDots (joined "." parts).toList) := by
  induction parts with
  | nil => rfl
  | cons first parts ih =>
    cases parts with
    | nil => rfl
    | cons second others =>
      rw [List.map_cons] at ih
      apply String.toList_injective
      rw [List.map_cons, List.map_cons, toList_joined_cons, ih, toList_joined_cons, escapeDots_append,
        escapeDots_append]
      simp only [String.toList_ofList]
      rfl

theorem flattened_eq (path : String) :
    flattened path = String.ofList (escapeDots (joined "." (segments path)).toList) := by
  rw [← joined_escapeDots, flattened, segments, List.map_map]
  simp only [Function.comp_def, String.toList_ofList]

theorem segments_flattened_iff (path : String) :
    segments (flattened path) = [joined "." (segments path)] ↔
      split (escapeDots (joined "." (segments path)).toList) = [(joined "." (segments path)).toList] := by
  rw [segments, flattened_eq, String.toList_ofList]
  constructor
  · intro read
    have back := congrArg (List.map String.toList) read
    simpa [List.map_map, Function.comp_def] using back
  · intro read
    rw [read]
    simp

-- A name that is read as the one segment meant is its own flattened form and reaches the same field.
theorem flattened_reads (path : String) (some : segments path ≠ []) (full : "" ∉ segments path) :
    (segments (flattened path) = [joined "." (segments path)] ↔
      ∀ s ∈ segments path, '\\' ∉ s.toList ∧ '[' ∉ s.toList) ∧
    (segments (flattened path) = [joined "." (segments path)] →
      flattened (flattened path) = flattened path ∧
        ∀ datum, flat (flattened path) datum = flat path datum) := by
  refine ⟨?_, ?_⟩
  · rw [segments_flattened_iff, split_escapeDots_iff (joined_ne_nil some full), dotsOnly_joined]
    rfl
  · intro single
    have same : joined "." (segments (flattened path)) = joined "." (segments path) := by
      rw [single, joined]
    refine ⟨?_, ?_⟩
    · rw [flattened_eq (flattened path), same, ← flattened_eq]
    · intro datum
      rw [flat, same, flat]

theorem flattened_reads_nested :
    segments "foo[\"b.c\"].d\\.e" = ["foo", "b.c", "d.e"] ∧
      segments (flattened "foo[\"b.c\"].d\\.e") = ["foo.b.c.d.e"] ∧
      flattened (flattened "foo[\"b.c\"].d\\.e") = flattened "foo[\"b.c\"].d\\.e" ∧
      flat (flattened "foo[\"b.c\"].d\\.e") "datum" = flat "foo[\"b.c\"].d\\.e" "datum" := by
  have parts : segments "foo[\"b.c\"].d\\.e" = ["foo", "b.c", "d.e"] := by decide +kernel
  obtain ⟨exactly, hence⟩ := flattened_reads "foo[\"b.c\"].d\\.e" (by simp [parts]) (by simp [parts])
  have single := exactly.mpr (by simp [parts])
  obtain ⟨twice, reached⟩ := hence single
  exact ⟨parts, by rw [single, parts]; rfl, twice, reached "datum"⟩

-- The bracket was escaped in the path and is not in the name, which two segments are read from.
theorem flattened_opens :
    segments "a\\[b" = ["a[b"] ∧ segments (flattened "a\\[b") = ["a", "b"] ∧
      flattened (flattened "a\\[b") ≠ flattened "a\\[b" ∧
      flat (flattened "a\\[b") "datum" ≠ flat "a\\[b" "datum" := by
  decide +kernel

end Viewflow.Text.AccessPath
