import Viewflow.Proofs.Expressions.Precedence
import Viewflow.Proofs.Expressions.Spelling
import Viewflow.Selection.Resolution

namespace Viewflow.Expression
open Resolution (scopedTest)

-- A unit signal names one view at a time.
def Exclusive (truth : Atom → Bool) : Prop :=
  ∀ unit v w, truth (.current unit v) = true → truth (.current unit w) = true → v = w

variable {known : String → Prop} {level : Level} {a b c : String} {m n k : (Atom → Bool) → Bool}

-- The text spells the tokens, with a gap wherever names would run together.
structure Spells (known : String → Prop) (text : String) (ts : List Token) : Prop where
  read : spelled ts = text.toList
  spaced : Spaced ts
  names : ∀ s, .name s ∈ ts → known s

theorem Spells.nothing : Spells known "" [] := ⟨rfl, List.isChain_nil, fun _ none => nomatch none⟩

theorem Spells.around {ts us : List Token} {t : Token} (left : Spells known a ts)
    (right : Spells known b us) (spelling : t.spelling = c.toList) (apart : t.isName = false) :
    Spells known (a ++ c ++ b) (ts ++ t :: us) := by
  refine ⟨?_, left.spaced.around right.spaced apart, ?_⟩
  · have behind : spelled (t :: us) = c.toList ++ b.toList := by
      rw [← spelling, ← right.read]
      rfl
    rw [spelled_append, left.read, behind]
    simp
  · intro s member
    rcases List.mem_append.mp member with member | member
    · exact left.names s member
    · rcases List.mem_cons.mp member with same | member
      · rw [← same] at apart
        cases apart
      · exact right.names s member

theorem Spells.parenthesized {ts : List Token} (inner : Spells known a ts) :
    Spells known (Operand.parenthesized a) (.opening :: ts ++ [.closing]) := by
  have opened : Spells known ("" ++ "(" ++ a) ([] ++ .opening :: ts) :=
    Spells.nothing.around inner rfl rfl
  have closed : Spells known ("" ++ "(" ++ a ++ ")" ++ "") ([] ++ .opening :: ts ++ [.closing]) :=
    opened.around .nothing rfl rfl
  simpa [Operand.parenthesized] using closed

def Means (known : String → Prop) (level : Level) (text : String)
    (meaning : (Atom → Bool) → Bool) : Prop :=
  ∃ ts e, Spells known text ts ∧ Parses level ts e ∧
    ∀ truth, Exclusive truth → e.value? truth = some (meaning truth)

namespace Means

theorem agrees (means : Means known level a m)
    (same : ∀ truth, Exclusive truth → m truth = n truth) : Means known level a n := by
  obtain ⟨ts, e, spells, parses, value⟩ := means
  exact ⟨ts, e, spells, parses, fun truth exclusive => same truth exclusive ▸ value truth exclusive⟩

theorem looser (means : Means known level.tighter a m) : Means known level a m := by
  obtain ⟨ts, e, spells, parses, value⟩ := means
  exact ⟨ts, e, spells, parses.looser, value⟩

theorem inNegation (means : Means known .single a m) : Means known .negation a m :=
  have single : Means known Level.negation.tighter a m := means
  single.looser

theorem inEqual (means : Means known .negation a m) : Means known .equal a m :=
  have negation : Means known Level.equal.tighter a m := means
  negation.looser

theorem inBoth (means : Means known .equal a m) : Means known .both a m :=
  have equal : Means known Level.both.tighter a m := means
  equal.looser

theorem inEither (means : Means known .both a m) : Means known .either a m :=
  have both : Means known Level.either.tighter a m := means
  both.looser

theorem inChoice (means : Means known .either a m) : Means known .choice a m :=
  have either : Means known Level.choice.tighter a m := means
  either.looser

theorem whole (means : Means known .single a m) : Means known .choice a m :=
  means.inNegation.inEqual.inBoth.inEither.inChoice

theorem name {s : String} {value : Bool} (spoken : known s)
    (reads : ∀ truth, (Expr.name s).value? truth = some value) :
    Means known .single s fun _ => value := by
  refine ⟨[.name s], .name s, ⟨?_, List.isChain_singleton _, ?_⟩, parses_name s, fun truth _ =>
    reads truth⟩
  · simp [spelled, Token.spelling]
  · intro t member
    cases List.mem_singleton.mp member
    exact spoken

theorem parenthesized (means : Means known .choice a m) :
    Means known .single (Operand.parenthesized a) m := by
  obtain ⟨ts, e, spells, parses, value⟩ := means
  exact ⟨_, e, spells.parenthesized, parses.parenthesized, value⟩

theorem negated (means : Means known .negation a m) :
    Means known .negation ("!" ++ a) fun truth => !m truth := by
  obtain ⟨ts, e, spells, parses, value⟩ := means
  have marked : Spells known ("" ++ "!" ++ a) ([] ++ .bang :: ts) :=
    Spells.nothing.around spells rfl rfl
  refine ⟨.bang :: ts, .not e, by simpa using marked, parses.negated, ?_⟩
  intro truth exclusive
  simp [Expr.value?, value truth exclusive]

theorem both (left : Means known .equal a m) (right : Means known .both b n) :
    Means known .both (a ++ " && " ++ b) fun truth => m truth && n truth := by
  obtain ⟨ts, e₁, spells₁, parses₁, value₁⟩ := left
  obtain ⟨us, e₂, spells₂, parses₂, value₂⟩ := right
  refine ⟨_, .both e₁ e₂, spells₁.around spells₂ rfl rfl, parses₁.both parses₂, ?_⟩
  intro truth exclusive
  simp [Expr.value?, value₁ truth exclusive, value₂ truth exclusive]

theorem either (left : Means known .both a m) (right : Means known .either b n) :
    Means known .either (a ++ " || " ++ b) fun truth => m truth || n truth := by
  obtain ⟨ts, e₁, spells₁, parses₁, value₁⟩ := left
  obtain ⟨us, e₂, spells₂, parses₂, value₂⟩ := right
  refine ⟨_, .either e₁ e₂, spells₁.around spells₂ rfl rfl, parses₁.either parses₂, ?_⟩
  intro truth exclusive
  simp [Expr.value?, value₁ truth exclusive, value₂ truth exclusive]

theorem choose (condition : Means known .either a m) (yes : Means known .choice b n)
    (no : Means known .choice c k) :
    Means known .choice (a ++ " ? " ++ (b ++ " : " ++ c)) fun truth =>
      if m truth then n truth else k truth := by
  obtain ⟨ts, e₁, spells₁, parses₁, value₁⟩ := condition
  obtain ⟨us, e₂, spells₂, parses₂, value₂⟩ := yes
  obtain ⟨vs, e₃, spells₃, parses₃, value₃⟩ := no
  refine ⟨_, .choose e₁ e₂ e₃, spells₁.around (spells₂.around spells₃ rfl rfl) rfl rfl,
    parses₁.choose parses₂ parses₃, ?_⟩
  intro truth exclusive
  simp [Expr.value?, value₁ truth exclusive, value₂ truth exclusive, value₃ truth exclusive]

end Means

structure Joins (known : String → Prop) (separator : String)
    (join : List ((Atom → Bool) → Bool) → (Atom → Bool) → Bool) : Prop where
  one : ∀ m, join [m] = m
  each : ∀ parts meanings, List.Forall₂ (Means known .single) parts meanings → parts ≠ [] →
    Means known .choice (Text.joined separator parts) (join meanings)

theorem joins_all : Joins known " && " fun meanings truth => meanings.all (· truth) := by
  refine ⟨fun m => by simp, fun parts meanings each filled => ?_⟩
  suffices both : Means known .both (Text.joined " && " parts) fun truth => meanings.all (· truth) from
    both.inEither.inChoice
  induction each with
  | nil => exact (filled rfl).elim
  | cons first rest ih =>
    cases rest with
    | nil => simpa [Text.joined] using first.inNegation.inEqual.inBoth
    | cons second more => exact first.inNegation.inEqual.both (ih (by simp))

theorem joins_any : Joins known " || " fun meanings truth => meanings.any (· truth) := by
  refine ⟨fun m => by simp, fun parts meanings each filled => ?_⟩
  suffices either : Means known .either (Text.joined " || " parts) fun truth => meanings.any (· truth)
    from either.inChoice
  induction each with
  | nil => exact (filled rfl).elim
  | cons first rest ih =>
    cases rest with
    | nil => simpa [Text.joined] using first.inNegation.inEqual.inBoth.inEither
    | cons second more => exact first.inNegation.inEqual.inBoth.either (ih (by simp))

section Atoms

variable {template store view unit : String}

theorem means_unscoped (spoken : known template) (datum : known "datum") (store : String) :
    Means known .single (template ++ "(" ++ Text.quote store ++ ", datum)")
      fun truth => truth (.tests template store none) := by
  have parses : Parses .single [.name template, .opening, .text store, .comma, .name "datum", .closing]
      (.call template [.text store, .name "datum"]) :=
    Parses.call (.cons (parses_text store).whole (.cons (parses_name "datum").whole .nil))
  refine ⟨_, _, ⟨?_, ?_, ?_⟩, parses, fun _ _ => rfl⟩
  · simp [spelled, Token.spelling, Text.quote]
  · simp [Spaced, Token.isName]
  · simp [spoken, datum]

theorem means_scoped (spoken : known template) (datum : known "datum") (store view : String) :
    Means known .single (scopedTest template (Text.quote store) view)
      fun truth => truth (.tests template store (some view)) := by
  have parses : Parses .single
      [.name template, .opening, .text store, .comma, .name "datum", .comma, .text view, .closing]
      (.call template [.text store, .name "datum", .text view]) :=
    Parses.call (.cons (parses_text store).whole
      (.cons (parses_name "datum").whole (.cons (parses_text view).whole .nil)))
  refine ⟨_, _, ⟨?_, ?_, ?_⟩, parses, fun _ _ => rfl⟩
  · simp [scopedTest, spelled, Token.spelling, Text.quote]
  · simp [Spaced, Token.isName]
  · simp [spoken, datum]

theorem means_filled (length : known "length") (data : known "data") (store : String) :
    Means known .single ("length(data(" ++ Text.quote store ++ "))")
      fun truth => truth (.filled store) := by
  have inner : Parses .single [.name "data", .opening, .text store, .closing]
      (.call "data" [.text store]) := Parses.call (.cons (parses_text store).whole .nil)
  have parses : Parses .single
      [.name "length", .opening, .name "data", .opening, .text store, .closing, .closing]
      (.call "length" [.call "data" [.text store]]) := Parses.call (.cons inner.whole .nil)
  refine ⟨_, _, ⟨?_, ?_, ?_⟩, parses, fun _ _ => rfl⟩
  · simp [spelled, Token.spelling, Text.quote]
  · simp [Spaced, Token.isName]
  · simp [length, data]

theorem means_current (spoken : known unit) (view : String) :
    Means known .equal (unit ++ " === " ++ Text.quote view)
      fun truth => truth (.current unit view) := by
  have left : Parses .negation [.name unit] (.name unit) := Parses.looser (parses_name unit)
  have right : Parses .negation [.text view] (.text view) := Parses.looser (parses_text view)
  refine ⟨_, _, ⟨?_, ?_, ?_⟩, left.equal right, fun _ _ => rfl⟩
  · simp [spelled, Token.spelling, Text.quote]
  · simp [Spaced, Token.isName]
  · simp [spoken]

end Atoms
end Viewflow.Expression
