import Mathlib.Data.List.Chain
import Viewflow.Proofs.Expressions.Reading
import Viewflow.Proofs.Text.Identifiers
import Viewflow.Proofs.Text.Quoted

namespace Viewflow

namespace Json.Lexing

variable {l l' : Lexing} {tokens : List Token} {c : Char} {cs : List Char}

def Keeps (tokens : List Token) (next : Option Lexing) : Prop :=
  ∀ l, next = some l → tokens.length ≤ l.tokens.length

theorem keeps_some (more : tokens.length ≤ l.tokens.length) : Keeps tokens (some l) := by
  intro l' same
  cases same
  exact more

theorem keeps_ite {p : Prop} [Decidable p] {first second : Option Lexing} (one : Keeps tokens first)
    (two : Keeps tokens second) : Keeps tokens (if p then first else second) := by
  split
  · exact one
  · exact two

theorem fresh?_keeps (read : fresh? tokens c = some l) : tokens.length ≤ l.tokens.length := by
  have same : ∀ mode, Keeps tokens (some ⟨mode, tokens⟩) := fun _ => keeps_some (Nat.le_refl _)
  have more : ∀ token, Keeps tokens (some ⟨.between, token :: tokens⟩) :=
    fun _ => keeps_some (Nat.le_succ _)
  have keeps : Keeps tokens (fresh? tokens c) := by
    refine keeps_ite (same _) (keeps_ite (more _) (keeps_ite (more _) (keeps_ite (more _)
      (keeps_ite (more _) (keeps_ite (more _) (keeps_ite (more _) (keeps_ite (same _)
        (keeps_ite (same _) (keeps_ite (same _) ?_)))))))))
    intro l' absent
    cases absent
  exact keeps l read

theorem step?_keeps (read : l.step? c = some l') : l.tokens.length ≤ l'.tokens.length := by
  obtain ⟨mode, tokens⟩ := l
  have behind : ∀ t, fresh? (t :: tokens) c = some l' → tokens.length ≤ l'.tokens.length :=
    fun t read => Nat.le_of_succ_le (fresh?_keeps read)
  cases mode <;> simp only [step?] at read
  case between => exact fresh?_keeps read
  all_goals grind [Option.bind_eq_some_iff]

theorem steps?_keeps (read : l.steps? cs = some l') : l.tokens.length ≤ l'.tokens.length := by
  induction cs generalizing l with
  | nil =>
    cases read
    exact Nat.le_refl _
  | cons c cs ih =>
    obtain ⟨next, first, rest⟩ := Option.bind_eq_some_iff.mp read
    exact (step?_keeps first).trans (ih rest)

end Json.Lexing

namespace Expression
open Text (isIdentifierChar quoteChars escapeChar SafeChars)

structure IsName (s : String) : Prop where
  filled : s.toList ≠ []
  safe : SafeChars s.toList

theorem isName_iff {s : String} : IsName s ↔ s ≠ "" ∧ Text.identifier s = s := by
  rw [Text.identifier_eq_iff, Ne, ← String.toList_eq_nil_iff]
  exact ⟨fun name => ⟨name.filled, name.safe⟩, fun ⟨filled, safe⟩ => ⟨filled, safe⟩⟩

def Token.isName : Token → Bool
  | .name _ => true
  | _ => false

def Token.spelling : Token → List Char
  | .name s => s.toList
  | .text s => quoteChars s.toList
  | .opening => ['(']
  | .closing => [')']
  | .comma => [',', ' ']
  | .bang => ['!']
  | .equals => " === ".toList
  | .ampersands => " && ".toList
  | .bars => " || ".toList
  | .question => " ? ".toList
  | .colon => " : ".toList

def spelled (ts : List Token) : List Char := ts.flatMap Token.spelling

theorem spelled_append (ts us : List Token) : spelled (ts ++ us) = spelled ts ++ spelled us :=
  List.flatMap_append

-- Two names side by side would be read as one.
def Spaced (ts : List Token) : Prop := ts.IsChain fun a b => a.isName = false ∨ b.isName = false

theorem Spaced.around {ts us : List Token} {t : Token} (left : Spaced ts) (right : Spaced us)
    (apart : t.isName = false) : Spaced (ts ++ t :: us) := by
  refine List.isChain_append.mpr ⟨left, ?_, ?_⟩
  · refine List.isChain_cons.mpr ⟨?_, right⟩
    intro _ _
    exact .inl apart
  · intro _ _ next here
    cases here
    exact .inr apart

namespace Lexing

variable {tokens : List Token} {c : Char} {cs : List Char} {inner inner' : Json.Lexing}

-- Where the reading stands behind these tokens, latest first: a name may still go on.
def behind : List Token → Lexing
  | .name s :: rest => ⟨.name s.toList.reverse, rest⟩
  | tokens => ⟨.between, tokens⟩

theorem behind_of_not_name (apart : ∀ t, tokens.head? = some t → t.isName = false) :
    behind tokens = ⟨.between, tokens⟩ := by
  match tokens with
  | [] => rfl
  | .name s :: rest => cases apart _ rfl
  | .text _ :: _ | .opening :: _ | .closing :: _ | .comma :: _ | .bang :: _ | .equals :: _
  | .ampersands :: _ | .bars :: _ | .question :: _ | .colon :: _ => rfl

theorem finished?_behind (tokens : List Token) : (behind tokens).finished? = some tokens.reverse := by
  unfold behind
  split
  · simp [finished?]
  · rfl

theorem step?_behind (other : isIdentifierChar c = false) :
    (behind tokens).step? c = fresh? tokens c := by
  unfold behind
  split
  · simp [step?, other]
  · rfl

theorem foldlM_behind (other : isIdentifierChar c = false) :
    (c :: cs).foldlM step? (behind tokens) = (fresh? tokens c).bind fun l => cs.foldlM step? l := by
  rw [List.foldlM_cons, step?_behind other]
  rfl

theorem foldlM_quoted (read : inner.steps? cs = some inner') (none : inner'.tokens = []) :
    cs.foldlM step? ⟨.quoted inner, tokens⟩ = some ⟨.quoted inner', tokens⟩ := by
  induction cs generalizing inner with
  | nil =>
    cases read
    rfl
  | cons c cs ih =>
    obtain ⟨next, first, rest⟩ := Option.bind_eq_some_iff.mp read
    have still : next.tokens = [] := by
      have kept := Json.Lexing.steps?_keeps rest
      rw [none] at kept
      exact List.eq_nil_of_length_eq_zero (Nat.le_zero.mp kept)
    have unclosed : quoted? tokens next = some ⟨.quoted next, tokens⟩ := by
      obtain ⟨mode, read⟩ := next
      cases still
      cases mode <;> rfl
    have step : step? ⟨.quoted inner, tokens⟩ c = some ⟨.quoted next, tokens⟩ := by
      simp only [step?, first, Option.bind_some, unclosed]
    rw [List.foldlM_cons, step]
    exact ih rest

theorem foldlM_quote (s : String) :
    (quoteChars s.toList).foldlM step? (behind tokens) = some (behind (.text s :: tokens)) := by
  have units : (s.toList.map Char.toNat).reverse ++ [] = (Json.unitsOf s).reverse := by
    rw [List.append_nil, Json.unitsOf]
  have inside : (s.toList.flatMap escapeChar).foldlM step? ⟨.quoted ⟨.quoted [], []⟩, tokens⟩ =
      some ⟨.quoted ⟨.quoted (Json.unitsOf s).reverse, []⟩, tokens⟩ :=
    foldlM_quoted (units ▸ Json.Lexing.steps?_escaped s.toList) rfl
  have closed : step? ⟨.quoted ⟨.quoted (Json.unitsOf s).reverse, []⟩, tokens⟩ '"' =
      some ⟨.between, .text s :: tokens⟩ := by
    simp [step?, Json.Lexing.step?, quoted?, Json.textOf?_units]
  have opened : fresh? tokens '"' = some ⟨.quoted ⟨.quoted [], []⟩, tokens⟩ := rfl
  rw [quoteChars, foldlM_behind rfl, opened, Option.bind_some, List.foldlM_append, inside]
  simp only [Option.bind_eq_bind, Option.bind_some, List.foldlM_cons, closed, List.foldlM_nil]
  rfl

theorem startsName_of_safe {rest : List Char} (safe : SafeChars (c :: rest)) : startsName c = true := by
  simp [startsName, safe.each c (List.mem_cons_self ..), safe.front c rfl]

theorem fresh?_startsName (starts : startsName c = true) :
    fresh? tokens c = some ⟨.name [c], tokens⟩ := by
  have other : ∀ d, startsName d = false → c ≠ d := by
    intro d not same
    rw [same, not] at starts
    cases starts
  unfold fresh?
  rw [if_neg (other ' ' rfl), if_neg (other '(' rfl), if_neg (other ')' rfl), if_neg (other ',' rfl),
    if_neg (other '!' rfl), if_neg (other '?' rfl), if_neg (other ':' rfl), if_neg (other '"' rfl),
    if_neg, if_pos starts]
  simp [other '=' rfl, other '&' rfl, other '|' rfl]

theorem foldlM_name (read : List Char) (safe : ∀ c ∈ cs, isIdentifierChar c = true) :
    cs.foldlM step? ⟨.name read, tokens⟩ = some ⟨.name (cs.reverse ++ read), tokens⟩ := by
  induction cs generalizing read with
  | nil => rfl
  | cons c cs ih =>
    have first : step? ⟨.name read, tokens⟩ c = some ⟨.name (c :: read), tokens⟩ := by
      simp [step?, safe c (List.mem_cons_self ..)]
    rw [List.foldlM_cons, first]
    simpa using ih (c :: read) fun c member => safe c (List.mem_cons_of_mem _ member)

theorem foldlM_spelling {t : Token} (apart : t.isName = true → behind tokens = ⟨.between, tokens⟩)
    (names : ∀ s, t = .name s → IsName s) :
    t.spelling.foldlM step? (behind tokens) = some (behind (t :: tokens)) := by
  cases t
  case name s =>
    obtain ⟨filled, safe⟩ := names s rfl
    have spelling : (Token.name s).spelling = s.toList := rfl
    rw [apart rfl, spelling]
    cases here : s.toList with
    | nil => exact (filled here).elim
    | cons c cs =>
      rw [here] at safe
      have first : step? ⟨.between, tokens⟩ c = some ⟨.name [c], tokens⟩ :=
        fresh?_startsName (startsName_of_safe safe)
      have rest : cs.foldlM step? ⟨.name [c], tokens⟩ = some ⟨.name (cs.reverse ++ [c]), tokens⟩ :=
        foldlM_name [c] fun d member => safe.each d (List.mem_cons_of_mem _ member)
      rw [List.foldlM_cons, first]
      simpa [behind, here] using rest
  case text s => exact foldlM_quote s
  all_goals exact (foldlM_behind rfl).trans rfl

-- Tokens are read one after another, whatever was read before them.
theorem foldlM_spelled {ts : List Token} (spaced : Spaced (tokens.reverse ++ ts))
    (names : ∀ s, .name s ∈ ts → IsName s) :
    (spelled ts).foldlM step? (behind tokens) = some (behind (ts.reverse ++ tokens)) := by
  induction ts generalizing tokens with
  | nil => rfl
  | cons t ts ih =>
    have apart : t.isName = true → behind tokens = ⟨.between, tokens⟩ := by
      intro name
      refine behind_of_not_name fun last here => ?_
      obtain ⟨_, _, between⟩ := List.isChain_append.mp spaced
      have side := between last (by simp [here]) t rfl
      rw [name] at side
      simpa using side
    have first := foldlM_spelling apart fun s same => names s (same ▸ List.mem_cons_self ..)
    have rest : Spaced ((t :: tokens).reverse ++ ts) := by simpa using spaced
    rw [spelled, List.flatMap_cons, List.foldlM_append, first]
    have read := ih rest fun s member => names s (List.mem_cons_of_mem _ member)
    rw [List.reverse_cons, List.append_assoc]
    exact read

end Lexing

theorem tokens?_spelled {ts : List Token} (spaced : Spaced ts) (names : ∀ s, .name s ∈ ts → IsName s) :
    tokens? (String.ofList (spelled ts)) = some ts := by
  have read : (spelled ts).foldlM Lexing.step? (Lexing.behind []) =
      some (Lexing.behind (ts.reverse ++ [])) := Lexing.foldlM_spelled spaced names
  change ((String.ofList (spelled ts)).toList.foldlM Lexing.step? (Lexing.behind [])).bind _ = _
  rw [String.toList_ofList, read, Option.bind_some, Lexing.finished?_behind]
  simp

end Expression
end Viewflow
