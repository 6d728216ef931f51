import Mathlib.Data.List.TakeWhile
import Viewflow.Proofs.Text.Quoted

namespace Viewflow

namespace Text

variable {c d : Char} {cs ds x y : List Char}

def unescape? : List Char → Option (Char × List Char)
  | '\\' :: 'u' :: a :: b :: high :: low :: rest =>
    (Json.Lexing.hexNumber? [low, high, b, a]).map fun n => (Char.ofNat n, rest)
  | '\\' :: mark :: rest => (Json.Lexing.escapeValue? mark).map fun c => (c, rest)
  | c :: rest => if c = '"' then none else some (c, rest)
  | [] => none

theorem unescape?_escapeChar (c : Char) (rest : List Char) :
    unescape? (escapeChar c ++ rest) = some (c, rest) := by
  unfold escapeChar
  split
  · next same => subst same; rfl
  split
  · next same => subst same; rfl
  split
  · next same => subst same; rfl
  split
  · next same => subst same; rfl
  split
  · next same => subst same; rfl
  split
  · next same => subst same; rfl
  split
  · next same => subst same; rfl
  split
  · next control =>
    obtain ⟨_, value⟩ := Json.Lexing.control_digits c.toNat control
    simp [unescape?, value, Char.ofNat_toNat]
  · next quote backslash _ _ _ _ _ _ =>
    rw [List.singleton_append, unescape?.eq_def]
    split <;> simp_all

theorem escapeChar_append (same : escapeChar c ++ x = escapeChar d ++ y) : c = d ∧ x = y := by
  have read := unescape?_escapeChar d y
  rw [← same, unescape?_escapeChar, Option.some.injEq, Prod.mk.injEq] at read
  exact read

theorem escapeChar_ne_quote (same : escapeChar c ++ x = '"' :: y) : False := by
  have read := unescape?_escapeChar c x
  rw [same] at read
  simp [unescape?] at read

theorem escaped_append (same : cs.flatMap escapeChar ++ '"' :: x = ds.flatMap escapeChar ++ '"' :: y) :
    cs = ds ∧ x = y := by
  induction cs generalizing ds with
  | nil =>
    cases ds with
    | nil => simpa using same
    | cons d ds =>
      rw [List.flatMap_cons, List.append_assoc] at same
      exact (escapeChar_ne_quote same.symm).elim
  | cons c cs ih =>
    rw [List.flatMap_cons, List.append_assoc] at same
    cases ds with
    | nil => exact (escapeChar_ne_quote same).elim
    | cons d ds =>
      rw [List.flatMap_cons, List.append_assoc] at same
      obtain ⟨rfl, rest⟩ := escapeChar_append same
      obtain ⟨rfl, behind⟩ := ih rest
      exact ⟨rfl, behind⟩

theorem toList_quote (s : String) :
    (quote s).toList = '"' :: (s.toList.flatMap escapeChar ++ ['"']) := by
  rw [quote, String.toList_ofList, quoteChars]

theorem quote_append {s t : String} (same : (quote s).toList ++ x = (quote t).toList ++ y) :
    s = t ∧ x = y := by
  simp only [toList_quote, List.cons_append, List.append_assoc, List.nil_append,
    List.cons.injEq, true_and] at same
  obtain ⟨chars, behind⟩ := escaped_append same
  exact ⟨String.toList_inj.mp chars, behind⟩

end Text

namespace Json
open Lexing (isNumberChar)

variable {x y : List Char}

namespace Number

structure Numeral (cs : List Char) : Prop where
  nonempty : cs ≠ []
  chars : ∀ c ∈ cs, isNumberChar c = true

theorem Numeral.cons {c : Char} {cs : List Char} (char : isNumberChar c = true)
    (chars : ∀ d ∈ cs, isNumberChar d = true) : Numeral (c :: cs) :=
  ⟨List.cons_ne_nil c cs, List.forall_mem_cons.mpr ⟨char, chars⟩⟩

theorem digitChars_numeral (n : Nat) : Numeral (digitChars n) := by
  refine ⟨Nat.toDigits_ne_nil, ?_⟩
  intro c digit
  simp [isNumberChar, Nat.isDigit_of_mem_toDigits (by decide) (by decide) digit]

theorem magnitudeChars_numeral (b : Binary64) : Numeral (magnitudeChars b) := by
  have zero : isNumberChar '0' = true := by decide
  have point : isNumberChar '.' = true := by decide
  have mark : isNumberChar 'e' = true := by decide
  have digits := digitChars_numeral b.shortest.digits
  have front := fun n => fun c member => digits.chars c (List.mem_of_mem_take (i := n) member)
  have back := fun n => fun c member => digits.chars c (List.mem_of_mem_drop (i := n) member)
  have zeros : ∀ n, ∀ c ∈ List.replicate n '0', isNumberChar c = true :=
    fun n c member => (List.mem_replicate.mp member).2 ▸ zero
  unfold magnitudeChars
  simp only
  split
  · exact .cons zero (List.forall_mem_cons.mpr ⟨point, List.forall_mem_singleton.mpr zero⟩)
  split
  · split
    · refine .cons zero ?_
      simp only [List.forall_mem_append, List.forall_mem_cons]
      exact ⟨point, zeros _, digits.chars⟩
    split <;> refine ⟨by simp [digits.nonempty], ?_⟩ <;>
      simp only [List.forall_mem_append, List.forall_mem_cons]
    · exact ⟨⟨digits.chars, zeros _⟩, point, zero, by simp⟩
    · exact ⟨front _, point, back _⟩
  · refine ⟨by simp, ?_⟩
    simp only [List.forall_mem_append, List.forall_mem_cons]
    refine ⟨⟨front 1, ?_⟩, mark, ?_, (digitChars_numeral _).chars⟩
    · split
      · simp
      · exact List.forall_mem_cons.mpr ⟨point, back 1⟩
    · split <;> decide

theorem chars_numeral (n : Number) : Numeral n.chars := by
  have minus : isNumberChar '-' = true := by decide
  cases n with
  | integer value =>
    rw [chars]
    split
    · exact .cons minus (digitChars_numeral _).chars
    · exact digitChars_numeral _
  | floating b =>
    rw [chars]
    split
    · exact .cons minus (magnitudeChars_numeral b).chars
    · exact magnitudeChars_numeral b

end Number

def Stops (x : List Char) : Prop := ∀ c ∈ x.head?, isNumberChar c = false

theorem numeral_append {cs ds : List Char} (numeral : ∀ c ∈ cs, isNumberChar c = true)
    (numeral' : ∀ c ∈ ds, isNumberChar c = true) (stops : Stops x) (stops' : Stops y)
    (same : cs ++ x = ds ++ y) : cs = ds ∧ x = y := by
  have ended : ∀ {x : List Char}, Stops x → x.takeWhile isNumberChar = [] := by
    intro x stops
    cases x with
    | nil => rfl
    | cons c x => simp [stops c rfl]
  have front := congrArg (List.takeWhile isNumberChar) same
  rw [List.takeWhile_append_of_pos numeral, List.takeWhile_append_of_pos numeral', ended stops,
    ended stops', List.append_nil, List.append_nil] at front
  subst front
  exact ⟨rfl, List.append_cancel_left same⟩

mutual

-- Equality in which numbers are compared by how they are written.
def agrees : Json → Json → Bool
  | .null, .null => true
  | .bool a, .bool b => a == b
  | .num a, .num b => a.text == b.text
  | .str a, .str b => a == b
  | .arr as, .arr bs => agreeItems as bs
  | .obj as, .obj bs => agreeFields as bs
  | _, _ => false

def agreeItems : List Json → List Json → Bool
  | [], [] => true
  | a :: as, b :: bs => a.agrees b && agreeItems as bs
  | _, _ => false

def agreeFields : List (String × Json) → List (String × Json) → Bool
  | [], [] => true
  | (k, a) :: as, (l, b) :: bs => k == l && a.agrees b && agreeFields as bs
  | _, _ => false

end

inductive Shape where
  | null | bool | number | text | list | record
deriving DecidableEq

def shape : Json → Shape
  | .null => .null
  | .bool _ => .bool
  | .num _ => .number
  | .str _ => .text
  | .arr _ => .list
  | .obj _ => .record

def opens? (c : Char) : Option Shape :=
  if isNumberChar c then some .number
  else [('n', Shape.null), ('t', .bool), ('f', .bool), ('"', .text), ('[', .list),
    ('\x7b', .record)].lookup c

theorem text_opens (a : Json) : ∃ c rest, a.text.toList = c :: rest ∧ opens? c = some a.shape := by
  cases a with
  | null => exact ⟨'n', _, rfl, rfl⟩
  | bool value => cases value <;> exact ⟨_, _, rfl, rfl⟩
  | num n =>
    obtain ⟨nonempty, chars⟩ := n.chars_numeral
    obtain ⟨c, rest, written⟩ := List.exists_cons_of_ne_nil nonempty
    have numeral : isNumberChar c = true := chars c (written ▸ List.mem_cons_self ..)
    exact ⟨c, rest, by rw [text, Number.text, String.toList_ofList, written], if_pos numeral⟩
  | str value => exact ⟨'"', _, Text.toList_quote value, rfl⟩
  | arr items => exact ⟨'[', (itemsText items ++ "]").toList, by simp [text], rfl⟩
  | obj fields => exact ⟨'\x7b', (fieldsText fields ++ "\x7d").toList, by simp [text], rfl⟩

theorem shape_eq {a b : Json} (same : a.text.toList ++ x = b.text.toList ++ y) :
    a.shape = b.shape := by
  obtain ⟨c, rest, text, opens⟩ := a.text_opens
  obtain ⟨d, rest', text', opens'⟩ := b.text_opens
  rw [text, text', List.cons_append, List.cons_append, List.cons.injEq] at same
  rw [← same.1, opens, Option.some.injEq] at opens'
  exact opens'

theorem Stops.cons {c : Char} (stops : isNumberChar c = false) (x : List Char) : Stops (c :: x) := by
  intro d head
  cases head
  exact stops

theorem text_ne_close {a : Json} {c : Char} (close : opens? c = none) :
    a.text.toList ++ x ≠ c :: y := by
  intro same
  obtain ⟨d, rest, text, opens⟩ := a.text_opens
  rw [text, List.cons_append, List.cons.injEq] at same
  rw [same.1, close] at opens
  cases opens

theorem stops_moreItems (as : List Json) (x : List Char) :
    Stops ((moreItemsText as).toList ++ ']' :: x) := by
  cases as with
  | nil => exact .cons (by decide) x
  | cons a as =>
    simp only [moreItemsText, String.toList_append]
    exact .cons (by decide) _

theorem stops_moreFields (as : List (String × Json)) (x : List Char) :
    Stops ((moreFieldsText as).toList ++ '\x7d' :: x) := by
  cases as with
  | nil => exact .cons (by decide) x
  | cons a as =>
    simp only [moreFieldsText, String.toList_append]
    exact .cons (by decide) _

-- A list and its rest behind a first item differ only in the comma in front.
theorem moreItems_of_items {as bs : List Json}
    (same : (itemsText as).toList ++ ']' :: x = (itemsText bs).toList ++ ']' :: y) :
    (moreItemsText as).toList ++ ']' :: x = (moreItemsText bs).toList ++ ']' :: y := by
  cases as <;> cases bs <;> simp only [itemsText, String.toList_append, List.append_assoc] at same
  case nil.nil => exact same
  case nil.cons => exact (text_ne_close (by decide) same.symm).elim
  case cons.nil => exact (text_ne_close (by decide) same).elim
  case cons.cons => simpa [moreItemsText] using same

theorem moreFields_of_fields {as bs : List (String × Json)}
    (same : (fieldsText as).toList ++ '\x7d' :: x = (fieldsText bs).toList ++ '\x7d' :: y) :
    (moreFieldsText as).toList ++ '\x7d' :: x = (moreFieldsText bs).toList ++ '\x7d' :: y := by
  cases as <;> cases bs <;> simp only [fieldsText, String.toList_append, List.append_assoc] at same
  case nil.nil => exact same
  case nil.cons => simp [Text.toList_quote] at same
  case cons.nil => simp [Text.toList_quote] at same
  case cons.cons => simpa [moreFieldsText] using same

mutual

-- A written value says what value it is and where it ends, unless digits follow a number.
theorem text_append (a b : Json) {x y : List Char} (stops : Stops x) (stops' : Stops y)
    (same : a.text.toList ++ x = b.text.toList ++ y) : a.agrees b = true ∧ x = y := by
  have shapes := shape_eq same
  cases a <;> cases b <;> simp only [shape, reduceCtorEq] at shapes
  case null.null => simpa [text, agrees] using same
  case bool.bool value value' => cases value <;> cases value' <;> simp_all [text, agrees]
  case num.num n m =>
    simp only [text, Number.text, String.toList_ofList] at same
    obtain ⟨chars, behind⟩ :=
      numeral_append n.chars_numeral.chars m.chars_numeral.chars stops stops' same
    exact ⟨by simp [agrees, Number.text, chars], behind⟩
  case str.str s t =>
    obtain ⟨rfl, behind⟩ := Text.quote_append same
    exact ⟨by simp [agrees], behind⟩
  case arr.arr as bs =>
    simp only [text, String.toList_append, List.append_assoc] at same
    exact itemsText_append as bs (moreItems_of_items (List.append_cancel_left same))
  case obj.obj as bs =>
    simp only [text, String.toList_append, List.append_assoc] at same
    exact fieldsText_append as bs (moreFields_of_fields (List.append_cancel_left same))
termination_by structural a

theorem itemsText_append (as bs : List Json) {x y : List Char}
    (same : (moreItemsText as).toList ++ ']' :: x = (moreItemsText bs).toList ++ ']' :: y) :
    agreeItems as bs = true ∧ x = y := by
  cases as <;> cases bs <;>
    simp only [moreItemsText, String.toList_append, List.append_assoc] at same
  case nil.nil => simpa [agreeItems] using same
  case nil.cons => simp at same
  case cons.nil => simp at same
  case cons.cons a as b bs =>
    obtain ⟨first, rest⟩ := text_append a b (stops_moreItems as x) (stops_moreItems bs y)
      (List.append_cancel_left same)
    obtain ⟨others, behind⟩ := itemsText_append as bs rest
    exact ⟨by simp [agreeItems, first, others], behind⟩
termination_by structural as

theorem fieldsText_append (as bs : List (String × Json)) {x y : List Char}
    (same : (moreFieldsText as).toList ++ '\x7d' :: x =
      (moreFieldsText bs).toList ++ '\x7d' :: y) :
    agreeFields as bs = true ∧ x = y := by
  cases as <;> cases bs <;>
    simp only [moreFieldsText, String.toList_append, List.append_assoc] at same
  case nil.nil => simpa [agreeFields] using same
  case nil.cons => simp at same
  case cons.nil => simp at same
  case cons.cons entry as entry' bs =>
    obtain ⟨k, a⟩ := entry
    obtain ⟨l, b⟩ := entry'
    obtain ⟨rfl, rest⟩ : k = l ∧ _ := Text.quote_append (List.append_cancel_left same)
    obtain ⟨first, rest⟩ := text_append a b (stops_moreFields as x) (stops_moreFields bs y)
      (List.append_cancel_left rest)
    obtain ⟨others, behind⟩ := fieldsText_append as bs rest
    exact ⟨by simp [agreeFields, first, others], behind⟩
termination_by structural as

end

mutual

theorem text_congr (a b : Json) (agree : a.agrees b = true) : a.text = b.text := by
  cases a <;> cases b <;> simp only [agrees, reduceCtorEq, beq_iff_eq] at agree
  case null.null => rfl
  case bool.bool => rw [agree]
  case num.num => exact agree
  case str.str => rw [agree]
  case arr.arr as bs => simp [text, (itemsText_congr as bs agree).1]
  case obj.obj as bs => simp [text, (fieldsText_congr as bs agree).1]
termination_by structural a

theorem itemsText_congr (as bs : List Json) (agree : agreeItems as bs = true) :
    itemsText as = itemsText bs ∧ moreItemsText as = moreItemsText bs := by
  cases as <;> cases bs <;> simp only [agreeItems, reduceCtorEq, Bool.and_eq_true] at agree
  case nil.nil => exact ⟨rfl, rfl⟩
  case cons.cons a as b bs =>
    have first := text_congr a b agree.1
    have others := (itemsText_congr as bs agree.2).2
    simp [itemsText, moreItemsText, first, others]
termination_by structural as

theorem fieldsText_congr (as bs : List (String × Json)) (agree : agreeFields as bs = true) :
    fieldsText as = fieldsText bs ∧ moreFieldsText as = moreFieldsText bs := by
  cases as <;> cases bs <;>
    simp only [agreeFields, reduceCtorEq, Bool.and_eq_true, beq_iff_eq] at agree
  case nil.nil => exact ⟨rfl, rfl⟩
  case cons.cons entry as entry' bs =>
    obtain ⟨k, a⟩ := entry
    obtain ⟨l, b⟩ := entry'
    obtain ⟨⟨rfl, agree⟩, rest⟩ : (k = l ∧ a.agrees b = true) ∧ _ := agree
    have first := text_congr a b agree
    have others := (fieldsText_congr as bs rest).2
    simp [fieldsText, moreFieldsText, first, others]
termination_by structural as

end

theorem text_eq_iff (a b : Json) : a.text = b.text ↔ a.agrees b = true := by
  refine ⟨fun same => ?_, text_congr a b⟩
  have ended : Stops [] := fun c head => by cases head
  exact (text_append a b ended ended (congrArg (·.toList ++ []) same)).1

end Json
end Viewflow
