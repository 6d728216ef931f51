import Viewflow.Proofs.Text.Trimmed
import Viewflow.Selection.EventStream

namespace Viewflow.EventStream
open Text (Blanks Trimmed isBlank trim trimEnd trimStart)

-- Every bracket has its partner, and outside of all brackets stand only such characters.
inductive Nested : (Char → Prop) → List Char → Prop
  | nil {outside : Char → Prop} : Nested outside []
  | bare {outside : Char → Prop} {c : Char} {rest : List Char} (opens : c ≠ '[') (closes : c ≠ ']')
      (stands : outside c) : Nested outside rest → Nested outside (c :: rest)
  | group {outside : Char → Prop} {inner rest : List Char} :
      Nested (fun _ => True) inner → Nested outside rest → Nested outside ('[' :: inner ++ ']' :: rest)

abbrev Balanced (cs : List Char) : Prop := Nested (fun _ => True) cs

abbrev Undivided (cs : List Char) : Prop := Nested (· ≠ ',') cs

variable {outside : Char → Prop} {cs ds front behind stream condition mark : List Char} {c : Char}
  {depth : Nat} {b : Between}

namespace Nested

theorem balanced (nested : Nested outside cs) : Balanced cs := by
  induction nested with
  | nil => exact .nil
  | bare opens closes _ _ ih => exact .bare opens closes trivial ih
  | group inner _ _ ih => exact .group inner ih

theorem append (one : Nested outside cs) : Nested outside ds → Nested outside (cs ++ ds) := by
  intro two
  induction one with
  | nil => exact two
  | bare opens closes stands _ ih => exact .bare opens closes stands (ih two)
  | @group _ inner rest nested _ _ ih =>
    have apart : ('[' :: inner ++ ']' :: rest) ++ ds = '[' :: inner ++ ']' :: (rest ++ ds) := by simp
    exact apart ▸ .group nested (ih two)

theorem of_bare (each : ∀ c ∈ cs, c ≠ '[' ∧ c ≠ ']' ∧ outside c) : Nested outside cs := by
  induction cs with
  | nil => exact .nil
  | cons c rest ih =>
    obtain ⟨⟨opens, closes, stands⟩, others⟩ := List.forall_mem_cons.mp each
    exact .bare opens closes stands (ih others)

theorem trimStart (nested : Nested outside cs) : Nested outside (trimStart cs) := by
  induction nested with
  | nil => exact .nil
  | bare opens closes stands nested ih =>
    unfold Text.trimStart at ih ⊢
    rw [List.dropWhile_cons]
    split
    · exact ih
    · exact .bare opens closes stands nested
  | group inner rest _ _ => exact .group inner rest

theorem trimEnd (nested : Nested outside cs) : Nested outside (trimEnd cs) := by
  induction nested with
  | nil => exact .nil
  | @bare _ c rest opens closes stands _ ih =>
    rw [Text.trimEnd]
    cases kept : Text.trimEnd rest with
    | nil =>
      simp only
      split
      · exact .nil
      · exact .bare opens closes stands .nil
    | cons d more => exact .bare opens closes stands (kept ▸ ih)
  | @group _ inner rest nested _ _ ih =>
    rw [Text.trimEnd_append rfl]
    exact .group nested ih

theorem trim (nested : Nested outside cs) : Nested outside (trim cs) := nested.trimStart.trimEnd

end Nested

theorem exists_of_map {pieces : Option (List Char × List Char)} (put : List Char → List Char)
    (found : (pieces.map fun s => (put s.1, s.2)) = some (front, behind)) :
    ∃ inside, pieces = some (inside, behind) ∧ put inside = front := by
  obtain ⟨⟨inside, _⟩, split, same⟩ := Option.map_eq_some_iff.mp found
  cases same
  exact ⟨inside, split, rfl⟩

section Closing

variable (depth) (rest : List Char)

theorem splitClose?_open : splitClose? depth ('[' :: rest) =
    (splitClose? (depth + 1) rest).map fun s => ('[' :: s.1, s.2) := by
  simp [splitClose?]

theorem splitClose?_close : splitClose? (depth + 1) (']' :: rest) =
    (splitClose? depth rest).map fun s => (']' :: s.1, s.2) := by
  simp [splitClose?]

theorem splitClose?_bare (opens : c ≠ '[') (closes : c ≠ ']') : splitClose? depth (c :: rest) =
    (splitClose? depth rest).map fun s => (c :: s.1, s.2) := by
  simp [splitClose?, opens, closes]

theorem splitClose?_nested (nested : Nested outside cs) : splitClose? depth (cs ++ rest) =
    (splitClose? depth rest).map fun s => (cs ++ s.1, s.2) := by
  induction nested generalizing depth rest with
  | nil => simp
  | bare opens closes _ _ ih =>
    rw [List.cons_append, splitClose?_bare depth _ opens closes, ih, Option.map_map]
    rfl
  | @group _ inner more _ _ ihInner ihMore =>
    have apart : '[' :: inner ++ ']' :: more ++ rest = '[' :: (inner ++ ']' :: (more ++ rest)) := by simp
    rw [apart, splitClose?_open, ihInner, splitClose?_close, ihMore]
    simp [Function.comp_def]

end Closing

theorem splitClose?_balanced (balanced : Balanced cs) (rest : List Char) :
    splitClose? 0 (cs ++ ']' :: rest) = some (cs, rest) := by
  rw [splitClose?_nested 0 _ balanced]
  simp [splitClose?]

def Closes : Nat → List Char → Prop
  | 0, cs => Balanced cs
  | depth + 1, cs => ∃ inner rest, cs = inner ++ ']' :: rest ∧ Balanced inner ∧ Closes depth rest

theorem Closes.bare (opens : c ≠ '[') (closes : c ≠ ']') (closing : Closes depth cs) :
    Closes depth (c :: cs) := by
  cases depth with
  | zero => exact Nested.bare opens closes trivial closing
  | succ depth =>
    obtain ⟨inner, rest, rfl, balanced, closing⟩ := closing
    exact ⟨c :: inner, rest, rfl, .bare opens closes trivial balanced, closing⟩

theorem Closes.group (balanced : Balanced cs) (closing : Closes depth ds) :
    Closes depth ('[' :: cs ++ ']' :: ds) := by
  cases depth with
  | zero => exact Nested.group balanced closing
  | succ depth =>
    obtain ⟨inner, rest, rfl, other, closing⟩ := closing
    exact ⟨'[' :: cs ++ ']' :: inner, rest, by simp, .group balanced other, closing⟩

theorem splitClose?_spec (found : splitClose? depth cs = some (front, behind)) :
    cs = front ++ ']' :: behind ∧ Closes depth front := by
  induction cs generalizing depth front with
  | nil => cases found
  | cons c rest ih =>
    by_cases close : c = ']'
    · subst close
      cases depth with
      | zero =>
        cases found
        exact ⟨rfl, .nil⟩
      | succ depth =>
        rw [splitClose?_close] at found
        obtain ⟨inside, split, rfl⟩ := exists_of_map (']' :: ·) found
        obtain ⟨rfl, closing⟩ := ih split
        exact ⟨rfl, [], inside, rfl, .nil, closing⟩
    by_cases opened : c = '['
    · subst opened
      rw [splitClose?_open] at found
      obtain ⟨inside, split, rfl⟩ := exists_of_map ('[' :: ·) found
      obtain ⟨rfl, inner, more, rfl, balanced, closing⟩ := ih split
      exact ⟨by simp, closing.group balanced⟩
    · rw [splitClose?_bare depth rest opened close] at found
      obtain ⟨inside, split, rfl⟩ := exists_of_map (c :: ·) found
      obtain ⟨rfl, closing⟩ := ih split
      exact ⟨rfl, closing.bare opened close⟩

theorem splitComma?_nested (nested : Nested outside cs) (depth : Nat) (rest : List Char) :
    splitComma? (depth + 1) (cs ++ rest) =
      (splitComma? (depth + 1) rest).map fun s => (cs ++ s.1, s.2) := by
  induction nested generalizing depth rest with
  | nil => simp
  | bare opens closes _ _ ih => simp [splitComma?, opens, closes, ih, Function.comp_def]
  | group _ _ ihInner ihMore => simp [splitComma?, ihInner, ihMore, Function.comp_def]

theorem splitComma?_group (inner : Balanced cs) (rest : List Char) :
    splitComma? 0 ('[' :: cs ++ ']' :: rest) =
      (splitComma? 0 rest).map fun s => ('[' :: cs ++ ']' :: s.1, s.2) := by
  simp [splitComma?, splitComma?_nested inner, Function.comp_def]

theorem splitComma?_bare (opens : c ≠ '[') (closes : c ≠ ']') (comma : c ≠ ',') (rest : List Char) :
    splitComma? 0 (c :: rest) = (splitComma? 0 rest).map fun s => (c :: s.1, s.2) := by
  simp [splitComma?, opens, closes, comma]

theorem splitComma?_of_nested (nested : Nested outside cs) (comma : ∀ c, outside c → c ≠ ',')
    (rest : List Char) : splitComma? 0 (cs ++ ',' :: rest) = some (cs, rest) := by
  induction nested with
  | nil => simp [splitComma?]
  | bare opens closes stands _ ih =>
    rw [List.cons_append, splitComma?_bare opens closes (comma _ stands), ih comma]
    rfl
  | @group _ inner more nested _ _ ih =>
    have apart : '[' :: inner ++ ']' :: more ++ ',' :: rest = '[' :: inner ++ ']' :: (more ++ ',' :: rest) := by
      simp
    rw [apart, splitComma?_group nested, ih comma]
    rfl

theorem splitComma?_spec (nested : Nested outside cs) (found : splitComma? 0 cs = some (front, behind)) :
    cs = front ++ ',' :: behind ∧ Undivided front ∧ Nested outside behind := by
  induction nested generalizing front with
  | nil => cases found
  | @bare _ c rest opens closes _ nested ih =>
    by_cases comma : c = ','
    · subst comma
      simp only [splitComma?, true_and, if_true, Option.some.injEq, Prod.mk.injEq] at found
      obtain ⟨rfl, rfl⟩ := found
      exact ⟨rfl, .nil, nested⟩
    · rw [splitComma?_bare opens closes comma] at found
      obtain ⟨before, split, rfl⟩ := exists_of_map (c :: ·) found
      obtain ⟨rfl, undivided, others⟩ := ih split
      exact ⟨rfl, .bare opens closes comma undivided, others⟩
  | @group _ inner rest nested _ _ ih =>
    rw [splitComma?_group nested] at found
    obtain ⟨before, split, rfl⟩ := exists_of_map (fun rest => '[' :: inner ++ ']' :: rest) found
    obtain ⟨rfl, undivided, others⟩ := ih split
    exact ⟨by simp, .group nested undivided, others⟩

theorem onMark_eq (trimmed : Trimmed cs) (mark : List Char) :
    onMark mark cs = if isPlaced cs then cs else '@' :: mark ++ ':' :: cs := by
  rw [onMark, trimmed.trim_eq]

theorem trimmed_onMark (trimmed : Trimmed cs) (mark : List Char) : Trimmed (onMark mark cs) := by
  rw [onMark_eq trimmed]
  split
  · exact trimmed
  · have named : Trimmed (':' :: cs) := (Trimmed.single rfl).append trimmed
    have marked : Trimmed ['@'] := .single rfl
    exact marked.enclose named (by decide) (List.cons_ne_nil _ _) mark

theorem isPlaced_onMark (trimmed : Trimmed cs) (mark : List Char) : isPlaced (onMark mark cs) = true := by
  rw [onMark_eq trimmed]
  split
  · assumption
  · rfl

theorem onMark_onMark (trimmed : Trimmed cs) (mark other : List Char) :
    onMark other (onMark mark cs) = onMark mark cs := by
  rw [onMark_eq (trimmed_onMark trimmed mark), if_pos (isPlaced_onMark trimmed mark)]

namespace Between

structure Proper (b : Between) : Prop where
  start : Undivided b.start
  stop : Balanced b.stop
  trimmedStart : Trimmed b.start
  trimmedStop : Trimmed b.stop
  trimmedTarget : Trimmed b.target
  target : b.target ≠ []

-- A stream reads just when it is a pair in brackets with a target behind it.
theorem read?_eq_some_iff : read? stream = some b ↔ ∃ start stop behind rest,
    trim stream = '[' :: start ++ ',' :: stop ++ ']' :: behind ∧ Undivided start ∧ Balanced stop ∧
      trim behind = '>' :: rest ∧ trim rest ≠ [] ∧ b = ⟨trim start, trim stop, trim rest⟩ := by
  constructor
  · intro read
    unfold read? at read
    split at read
    · next inner opened =>
      obtain ⟨⟨bracketed, behind⟩, closed, inside⟩ := Option.bind_eq_some_iff.mp read
      obtain ⟨⟨start, stop⟩, divided, followed⟩ := Option.bind_eq_some_iff.mp inside
      obtain ⟨rfl, balanced⟩ := splitClose?_spec closed
      obtain ⟨rfl, undivided, others⟩ := splitComma?_spec balanced divided
      simp only at followed
      split at followed
      · next rest arrow =>
        split at followed
        · cases followed
        · next shown =>
          cases followed
          refine ⟨start, stop, behind, rest, opened, undivided, others, arrow, ?_, rfl⟩
          exact fun empty => shown (empty ▸ rfl)
      · cases followed
    · cases read
  · rintro ⟨start, stop, behind, rest, opened, undivided, others, arrow, shown, rfl⟩
    have bracketed : Balanced (start ++ ',' :: stop) :=
      undivided.balanced.append (.bare (by decide) (by decide) trivial others)
    have closed := splitClose?_balanced bracketed behind
    have divided := splitComma?_of_nested undivided (fun _ comma => comma) stop
    change trim stream = '[' :: (start ++ ',' :: stop ++ ']' :: behind) at opened
    simp only [read?, opened, Option.bind_eq_bind, closed, Option.bind_some, divided, arrow]
    exact if_neg fun empty => shown (List.isEmpty_iff.mp empty)

theorem read?_proper (read : read? stream = some b) : b.Proper := by
  obtain ⟨start, stop, behind, rest, _, undivided, balanced, _, shown, rfl⟩ := read?_eq_some_iff.mp read
  exact ⟨undivided.trim, balanced.trim, Text.trimmed_trim _, Text.trimmed_trim _, Text.trimmed_trim _, shown⟩

theorem text_toList (b : Between) : b.text.toList = b.chars := String.toList_ofList

theorem Proper.trimmed (proper : b.Proper) : Trimmed b.chars := by
  have opened : Trimmed ['['] := .single rfl
  have whole := opened.enclose proper.trimmedTarget (by decide) proper.target
    (b.start ++ [',', ' '] ++ b.stop ++ [']', ' ', '>', ' '])
  simpa [chars] using whole

theorem Proper.read?_text (proper : b.Proper) : read? b.text.toList = some b := by
  have space : Blanks [' '] := fun c member => List.mem_singleton.mp member ▸ rfl
  have arrow : Trimmed ('>' :: ' ' :: b.target) :=
    (Trimmed.single rfl).enclose proper.trimmedTarget (by decide) proper.target [' ']
  have spaced : Balanced (' ' :: b.stop) := .bare (by decide) (by decide) trivial proper.stop
  have target : trim (' ' :: b.target) = b.target := proper.trimmedTarget.trim_blanks space
  have stop : trim (' ' :: b.stop) = b.stop := proper.trimmedStop.trim_blanks space
  apply read?_eq_some_iff.mpr
  refine ⟨b.start, ' ' :: b.stop, ' ' :: '>' :: ' ' :: b.target, ' ' :: b.target, ?_, proper.start, spaced,
    arrow.trim_blanks space, target.symm ▸ proper.target, ?_⟩
  · rw [text_toList, proper.trimmed.trim_eq, chars]
    simp
  · rw [proper.trimmedStart.trim_eq, stop, target]

theorem Proper.filterStart (proper : b.Proper) (balanced : Balanced condition) :
    (b.filterStart condition).Proper := by
  have closed : Trimmed [']'] := .single rfl
  have opened : Trimmed ['['] := .single rfl
  have filter : Trimmed ('[' :: condition ++ [']']) := opened.enclose closed (by decide) (by decide) condition
  have filtered : b.start ++ '[' :: condition ++ [']'] = b.start ++ ('[' :: condition ++ [']']) :=
    List.append_assoc ..
  refine { proper with start := ?_, trimmedStart := ?_ }
  · change Undivided (b.start ++ '[' :: condition ++ [']'])
    exact filtered ▸ proper.start.append (.group balanced .nil)
  · change Trimmed (b.start ++ '[' :: condition ++ [']'])
    exact filtered ▸ proper.trimmedStart.append filter

theorem Proper.startOnMark (proper : b.Proper) (plain : ∀ c ∈ mark, c ≠ '[' ∧ c ≠ ']' ∧ c ≠ ',') :
    (b.startOnMark mark).Proper := by
  refine { proper with start := ?_, trimmedStart := trimmed_onMark proper.trimmedStart mark }
  change Undivided (onMark mark b.start)
  rw [onMark_eq proper.trimmedStart]
  split
  · exact proper.start
  · have named : Undivided (mark ++ ':' :: b.start) :=
      (Nested.of_bare plain).append (.bare (by decide) (by decide) (by decide) proper.start)
    exact .bare (by decide) (by decide) (by decide) named

-- Whatever is read of a stream is read again from its text, as it is and as selections change it.
theorem read?_of_text (read : read? stream = some b) :
    b.Proper ∧ read? b.text.toList = some b ∧
      (∀ condition, Balanced condition →
        read? (b.filterStart condition).text.toList = some (b.filterStart condition)) ∧
      (∀ mark : List Char, (∀ c ∈ mark, c ≠ '[' ∧ c ≠ ']' ∧ c ≠ ',') →
        read? (b.startOnMark mark).text.toList = some (b.startOnMark mark)) ∧
      ∀ mark other, (b.startOnMark mark).startOnMark other = b.startOnMark mark := by
  have proper := read?_proper read
  refine ⟨proper, proper.read?_text, ?_, ?_, ?_⟩
  · intro condition balanced
    exact (proper.filterStart balanced).read?_text
  · intro mark plain
    exact (proper.startOnMark plain).read?_text
  · intro mark other
    exact congrArg (fun start => { b with start }) (onMark_onMark proper.trimmedStart mark other)

-- Brackets within brackets, commas within them and behind the first that divides, and blanks all around.
theorem read?_of_text_nested :
    ∃ b, read? " [ mousedown[keys[0], 1] , mouseup, blur]  > mousemove! ".toList = some b ∧
      Balanced "items[0]".toList ∧
      read? (b.filterStart "items[0]".toList).text.toList = some (b.filterStart "items[0]".toList) ∧
      read? (b.startOnMark "brush".toList).text.toList = some (b.startOnMark "brush".toList) ∧
      (b.startOnMark "brush".toList).startOnMark "cells".toList = b.startOnMark "brush".toList := by
  have read : read? " [ mousedown[keys[0], 1] , mouseup, blur]  > mousemove! ".toList =
      some ⟨"mousedown[keys[0], 1]".toList, "mouseup, blur".toList, "mousemove!".toList⟩ := by decide
  have digit : Balanced "0".toList := .of_bare (by simp)
  have items : Balanced "items".toList := .of_bare (by simp)
  have balanced : Balanced "items[0]".toList := items.append (.group digit .nil)
  obtain ⟨_, _, filtered, marked, twice⟩ := read?_of_text read
  exact ⟨_, read, balanced, filtered _ balanced, marked _ (by simp), twice _ _⟩

end Between
end Viewflow.EventStream
