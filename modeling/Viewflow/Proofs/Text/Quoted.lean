import Viewflow.Json.Reader

namespace Viewflow.Json
open Text (escapeChar hexDigit quoteChars)

variable {tokens : List Token} {units : List Nat} {cs rest : List Char} {c : Char}

namespace Lexing

theorem steps?_append (l : Lexing) (cs rest : List Char) :
    l.steps? (cs ++ rest) = (l.steps? cs).bind fun next => next.steps? rest := by
  induction cs generalizing l with
  | nil => rfl
  | cons c cs ih =>
    simp only [List.cons_append, steps?]
    cases l.step? c with
    | none => rfl
    | some next => exact ih next

theorem control_digits : ∀ n < 32, (hexValue? (hexDigit (n / 16))).isSome = true ∧
    hexNumber? [hexDigit (n % 16), hexDigit (n / 16), '0', '0'] = some n := by decide

theorem steps?_control (control : c.toNat < 0x20) :
    steps? ⟨.quoted units, tokens⟩
        ['\\', 'u', '0', '0', hexDigit (c.toNat / 16), hexDigit (c.toNat % 16)] =
      some ⟨.quoted (c.toNat :: units), tokens⟩ := by
  obtain ⟨third, value⟩ := control_digits c.toNat control
  have zero : (hexValue? '0').isSome = true := by decide
  simp [steps?, step?, third, zero, value]

theorem steps?_escapeChar (c : Char) :
    steps? ⟨.quoted units, tokens⟩ (escapeChar c) = some ⟨.quoted (c.toNat :: units), tokens⟩ := by
  unfold escapeChar
  split
  · next same => subst same; rfl
  split
  · next same => subst same; rfl
  split
  · next same => subst same; rfl
  split
  · next same => subst same; rfl
  split
  · next same => subst same; rfl
  split
  · next same => subst same; rfl
  split
  · next same => subst same; rfl
  split
  · next control => exact steps?_control control
  · next quote backslash _ _ _ _ _ control => simp [steps?, step?, quote, backslash, control]

theorem steps?_escaped (cs : List Char) :
    steps? ⟨.quoted units, tokens⟩ (cs.flatMap escapeChar) =
      some ⟨.quoted ((cs.map Char.toNat).reverse ++ units), tokens⟩ := by
  induction cs generalizing units with
  | nil => rfl
  | cons c cs ih =>
    rw [List.flatMap_cons, steps?_append, steps?_escapeChar, Option.bind_some, ih]
    simp

end Lexing

-- Between tokens, the characters read as these tokens and leave the reading between tokens.
def Lexes (cs : List Char) (read : List Token) : Prop :=
  ∀ tokens, Lexing.steps? ⟨.between, tokens⟩ cs = some ⟨.between, read.reverse ++ tokens⟩

theorem Lexes.nil : Lexes [] [] := fun _ => rfl

theorem Lexes.append {cs' : List Char} {read read' : List Token} (one : Lexes cs read)
    (two : Lexes cs' read') : Lexes (cs ++ cs') (read ++ read') := by
  intro tokens
  rw [Lexing.steps?_append, one, Option.bind_some, two]
  simp

theorem Lexes.tokens? {read : List Token} (lexes : Lexes cs read) : tokens? cs = some read := by
  unfold Json.tokens? Lexing.start
  rw [lexes, Option.bind_some]
  simp [Lexing.finished?]

def unitsOf (s : String) : List Nat := s.toList.map Char.toNat

theorem lexes_quote (s : String) : Lexes (Text.quote s).toList [.str (unitsOf s)] := by
  intro tokens
  have opened : Lexing.step? ⟨.between, tokens⟩ '"' = some ⟨.quoted [], tokens⟩ := rfl
  rw [Text.quote, String.toList_ofList, quoteChars, Lexing.steps?, opened, Option.bind_some,
    Lexing.steps?_append, Lexing.steps?_escaped]
  simp [Lexing.steps?, Lexing.step?, unitsOf]

theorem whole_of_char (c : Char) : isHigh c.toNat = false ∧ isLow c.toNat = false := by
  have valid := c.valid
  simp only [UInt32.isValidChar, Nat.isValidChar] at valid
  simp only [isHigh, isLow, Bool.and_eq_false_iff, decide_eq_false_iff_not]
  change (c.val.toNat < 0xD800 ∨ _) at valid
  unfold Char.toNat
  omega

theorem decode?_units (cs : List Char) : decode? (cs.map Char.toNat) = some cs := by
  induction cs with
  | nil => rfl
  | cons c cs ih =>
    obtain ⟨high, low⟩ := whole_of_char c
    cases cs with
    | nil => simp [decode?, high, low]
    | cons d cs =>
      rw [List.map_cons] at ih
      simp [decode?, high, low, ih]

theorem textOf?_units (s : String) : Expected.textOf? (unitsOf s) = some s := by
  rw [Expected.textOf?, unitsOf, decode?_units]
  simp

theorem lexes_mark {c : Char} {token : Token}
    (step : ∀ tokens, Lexing.fresh? tokens c = some ⟨.between, token :: tokens⟩) :
    Lexes [c] [token] := by
  intro tokens
  simp [Lexing.steps?, Lexing.step?, step]

section TextFields

variable (fields : List (String × String))

def textFields : List (String × Json) := fields.map fun f => (f.1, .str f.2)

def textDocument : Document := .obj (fields.map fun f => (f.1, .str f.2))

def fieldTokens (f : String × String) : List Token :=
  [.str (unitsOf f.1), .colon, .str (unitsOf f.2)]

theorem lexes_field (f : String × String) :
    Lexes (Text.quote f.1 ++ ":" ++ (Json.str f.2).text).toList (fieldTokens f) := by
  have colon : Lexes [':'] [.colon] := lexes_mark fun _ => rfl
  simpa [text, fieldTokens] using ((lexes_quote f.1).append colon).append (lexes_quote f.2)

theorem lexes_moreFields :
    Lexes (moreFieldsText (textFields fields)).toList
      (fields.flatMap fun f => .comma :: fieldTokens f) := by
  induction fields with
  | nil => exact .nil
  | cons f fields ih =>
    have comma : Lexes [','] [.comma] := lexes_mark fun _ => rfl
    simpa [textFields, moreFieldsText, List.append_assoc] using
      (comma.append (lexes_field f)).append ih

theorem lexes_object (f : String × String) :
    Lexes (Json.obj (textFields (f :: fields))).text.toList
      (.openBrace :: fieldTokens f ++ (fields.flatMap fun f => .comma :: fieldTokens f) ++
        [.closeBrace]) := by
  have opened : Lexes ['{'] [.openBrace] := lexes_mark fun _ => rfl
  have closed : Lexes ['}'] [.closeBrace] := lexes_mark fun _ => rfl
  simpa [textFields, text, fieldsText, List.append_assoc] using
    ((opened.append (lexes_field f)).append (lexes_moreFields fields)).append closed

def readField (f : String × String) : Option String × Document := (some f.1, .str f.2)

theorem steps?_key (f : String × String) (done : List (Option String × Document))
    (rest : List Token) :
    (Expected.key done []).steps? (fieldTokens f ++ rest) =
      (Expected.moreFields (readField f :: done) []).steps? rest := by
  simp [fieldTokens, readField, Expected.steps?, Expected.step?, Expected.atValue?,
    Expected.deliver, textOf?_units]

theorem steps?_moreFields (done : List (Option String × Document)) (rest : List Token) :
    (Expected.moreFields done []).steps? ((fields.flatMap fun f => .comma :: fieldTokens f) ++ rest) =
      (Expected.moreFields ((fields.map readField).reverse ++ done) []).steps? rest := by
  induction fields generalizing done with
  | nil => rfl
  | cons f fields ih =>
    rw [List.flatMap_cons, List.cons_append, List.cons_append, List.append_assoc, Expected.steps?]
    simp only [Expected.step?, Option.bind_some]
    rw [steps?_key, ih]
    simp

theorem namedFields?_readField :
    Expected.namedFields? (fields.map readField) =
      some (fields.map fun f => (f.1, Document.str f.2)) := by
  unfold Expected.namedFields?
  induction fields with
  | nil => rfl
  | cons f fields ih =>
    rw [List.map_cons, List.mapM_cons, ih]
    rfl

theorem ofChars?_textFields (f : String × String) :
    Document.ofChars? (Json.obj (textFields (f :: fields))).text.toList =
      some (textDocument (f :: fields)) := by
  rw [Document.ofChars?, (lexes_object fields f).tokens?, Option.bind_some, Document.ofTokens?]
  rw [List.cons_append, List.cons_append, List.append_assoc, Expected.steps?]
  simp only [Expected.step?, Expected.atValue?, Option.bind_some]
  have first : ∀ rest, (Expected.firstKey []).steps? (fieldTokens f ++ rest) =
      (Expected.moreFields [readField f] []).steps? rest := fun rest =>
    (show _ = (Expected.key [] []).steps? _ from rfl).trans (steps?_key f [] rest)
  rw [first, steps?_moreFields]
  have named := namedFields?_readField (f :: fields)
  rw [← List.reverse_reverse ((f :: fields).map readField), List.map_cons, List.reverse_cons] at named
  simp only [Expected.steps?, Expected.step?, Option.bind_some, named, Expected.close, List.drop_nil,
    List.isEmpty_nil, if_true, Option.map_some, Option.getD_some, Expected.deliver,
    Expected.document?]
  rfl

end TextFields
end Viewflow.Json
