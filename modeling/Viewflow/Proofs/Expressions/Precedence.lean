import Mathlib.Data.List.Forall2
import Mathlib.Tactic.Tauto
import Viewflow.Proofs.Expressions.Reading

namespace Viewflow.Expression

variable {level : Level} {ts us vs : List Token} {e e₁ e₂ e₃ : Expr}

def Level.depth : Level → Nat
  | .choice => 0
  | .either => 1
  | .both => 2
  | .equal => 3
  | .negation => 4
  | .single => 5

def Level.tighter : Level → Level
  | .choice => .either
  | .either => .both
  | .both => .equal
  | .equal => .negation
  | .negation | .single => .single

-- What would go on with a piece of the level. A bracket would make a call of a name.
def Level.continuedBy : Level → List Token
  | .choice => [.opening, .equals, .ampersands, .bars, .question]
  | .either => [.opening, .equals, .ampersands, .bars]
  | .both => [.opening, .equals, .ampersands]
  | .equal => [.opening, .equals]
  | .negation | .single => [.opening]

def Level.Ends (level : Level) (rest : List Token) : Prop :=
  ∀ t, rest.head? = some t → t ∉ level.continuedBy

-- A bracket costs a token and takes the reading once through all six levels.
def Parses (level : Level) (ts : List Token) (e : Expr) : Prop :=
  ∀ rest fuel, level.Ends rest → 6 * ts.length ≤ fuel + level.depth →
    expression fuel level (ts ++ rest) = some (e, rest)

theorem Level.ends_nil : level.Ends [] := fun _ none => nomatch none

theorem Level.ends_cons {t : Token} {rest : List Token} (other : t ∉ level.continuedBy) :
    level.Ends (t :: rest) := by
  intro u here
  cases here
  exact other

theorem Level.Ends.tighter {rest : List Token} (ends : level.Ends rest) : level.tighter.Ends rest := by
  intro t here member
  refine ends t here ?_
  cases level <;> simp only [continuedBy, Level.tighter, List.mem_cons] at member ⊢ <;> tauto

theorem Parses.filled (parses : Parses level ts e) : 0 < ts.length := by
  cases ts with
  | nil =>
    have none := parses [] 0 Level.ends_nil (Nat.zero_le _)
    cases level <;> simp [expression] at none
  | cons _ _ => exact Nat.succ_pos _

theorem continued_ends {operator : Token} {join more} {rest : List Token}
    (ends : ∀ t, rest.head? = some t → t ≠ operator) :
    continued operator join more (e, rest) = some (e, rest) := by
  cases rest with
  | nil => rfl
  | cons t rest => simp [continued, ends t rfl]

theorem continued_on {operator : Token} {join more} {rest rest' : List Token}
    (read : more rest = some (e₂, rest')) :
    continued operator join more (e₁, operator :: rest) = some (join e₁ e₂, rest') := by
  simp [continued, read]

theorem chosen_ends {branch} {rest : List Token}
    (ends : ∀ t, rest.head? = some t → t ≠ .question) : chosen branch (e, rest) = some (e, rest) := by
  cases rest with
  | nil => rfl
  | cons t rest =>
    have other := ends t rfl
    simp [chosen, other]

theorem expression_closing (fuel : Nat) (level : Level) (rest : List Token) :
    expression fuel level (.closing :: rest) = none := by
  induction fuel generalizing level with
  | zero => cases level <;> rfl
  | succ fuel ih => cases level <;> simp [expression, ih]

theorem expression_single_bang (fuel : Nat) (rest : List Token) :
    expression fuel .single (.bang :: rest) = none := by
  cases fuel <;> simp [expression]

theorem parses_name (s : String) : Parses .single [.name s] (.name s) := by
  intro rest fuel ends enough
  obtain ⟨fuel, rfl⟩ : ∃ f, fuel = f + 1 := ⟨fuel - 1, by simp [Level.depth] at enough; omega⟩
  match rest with
  | [] => simp [expression]
  | .opening :: rest => exact (ends .opening rfl (by simp [Level.continuedBy])).elim
  | .name _ :: _ | .text _ :: _ | .closing :: _ | .comma :: _ | .bang :: _ | .equals :: _
  | .ampersands :: _ | .bars :: _ | .question :: _ | .colon :: _ => simp [expression]

theorem parses_text (s : String) : Parses .single [.text s] (.text s) := by
  intro rest fuel ends enough
  obtain ⟨fuel, rfl⟩ : ∃ f, fuel = f + 1 := ⟨fuel - 1, by simp [Level.depth] at enough; omega⟩
  simp [expression]

theorem Parses.parenthesized (inner : Parses .choice ts e) :
    Parses .single (.opening :: ts ++ [.closing]) e := by
  intro rest fuel ends enough
  simp only [List.length_append, List.length_cons, List.length_nil, Level.depth] at enough
  obtain ⟨fuel, rfl⟩ : ∃ f, fuel = f + 1 := ⟨fuel - 1, by omega⟩
  have read := inner (.closing :: rest) fuel (Level.ends_cons (by simp [Level.continuedBy]))
    (by simp only [Level.depth]; omega)
  simp [expression, read, expect]

theorem Parses.negated (inner : Parses .negation ts e) : Parses .negation (.bang :: ts) (.not e) := by
  intro rest fuel ends enough
  simp only [List.length_cons, Level.depth] at enough
  obtain ⟨fuel, rfl⟩ : ∃ f, fuel = f + 1 := ⟨fuel - 1, by omega⟩
  have read := inner rest fuel ends (by simp only [Level.depth]; omega)
  simp [expression, read]

theorem Parses.looser (inner : Parses level.tighter ts e) : Parses level ts e := by
  intro rest fuel ends enough
  have filled := inner.filled
  obtain ⟨fuel, rfl⟩ : ∃ f, fuel = f + 1 :=
    ⟨fuel - 1, by cases level <;> simp only [Level.depth] at enough <;> omega⟩
  have read : level ≠ .single → expression fuel level.tighter (ts ++ rest) = some (e, rest) := by
    intro loose
    refine inner rest fuel ends.tighter ?_
    cases level <;> simp [Level.depth, Level.tighter] at enough loose ⊢ <;> omega
  have last : ∀ t, t ∈ level.continuedBy → ∀ u, rest.head? = some u → u ≠ t := by
    intro t member u here same
    exact ends u here (same ▸ member)
  cases level with
  | single => exact inner rest (fuel + 1) ends enough
  | negation =>
    have read : expression fuel .single (ts ++ rest) = some (e, rest) := read (by simp)
    cases ts with
    | nil => cases filled
    | cons t ts =>
      by_cases bang : t = .bang
      · rw [bang, List.cons_append, expression_single_bang] at read
        cases read
      · simpa [expression, bang] using read
  | equal | both | either =>
    have read := read (by simp)
    simp only [Level.tighter] at read
    rw [expression, read, Option.bind_some, continued_ends (last _ (by simp [Level.continuedBy]))]
  | choice =>
    have read := read (by simp)
    simp only [Level.tighter] at read
    rw [expression, read, Option.bind_some, chosen_ends (last _ (by simp [Level.continuedBy]))]

theorem Parses.whole (inner : Parses .single ts e) : Parses .choice ts e :=
  have negation : Parses Level.equal.tighter ts e := Parses.looser inner
  have equal : Parses Level.both.tighter ts e := negation.looser
  have both : Parses Level.either.tighter ts e := equal.looser
  have either : Parses Level.choice.tighter ts e := both.looser
  either.looser

theorem Parses.equal (left : Parses .negation ts e₁) (right : Parses .negation us e₂) :
    Parses .equal (ts ++ .equals :: us) (.equal e₁ e₂) := by
  intro rest fuel ends enough
  simp only [List.length_append, List.length_cons, Level.depth] at enough
  obtain ⟨fuel, rfl⟩ : ∃ f, fuel = f + 1 := ⟨fuel - 1, by omega⟩
  have first := left (.equals :: us ++ rest) fuel (Level.ends_cons (by simp [Level.continuedBy]))
    (by simp only [Level.depth]; omega)
  have second := right rest fuel ends.tighter (by simp only [Level.depth]; omega)
  rw [expression, List.append_assoc, first, Option.bind_some]
  exact continued_on second

theorem Parses.both (left : Parses .equal ts e₁) (right : Parses .both us e₂) :
    Parses .both (ts ++ .ampersands :: us) (.both e₁ e₂) := by
  intro rest fuel ends enough
  simp only [List.length_append, List.length_cons, Level.depth] at enough
  obtain ⟨fuel, rfl⟩ : ∃ f, fuel = f + 1 := ⟨fuel - 1, by omega⟩
  have first := left (.ampersands :: us ++ rest) fuel
    (Level.ends_cons (by simp [Level.continuedBy])) (by simp only [Level.depth]; omega)
  have second := right rest fuel ends (by simp only [Level.depth]; omega)
  rw [expression, List.append_assoc, first, Option.bind_some]
  exact continued_on second

theorem Parses.either (left : Parses .both ts e₁) (right : Parses .either us e₂) :
    Parses .either (ts ++ .bars :: us) (.either e₁ e₂) := by
  intro rest fuel ends enough
  simp only [List.length_append, List.length_cons, Level.depth] at enough
  obtain ⟨fuel, rfl⟩ : ∃ f, fuel = f + 1 := ⟨fuel - 1, by omega⟩
  have first := left (.bars :: us ++ rest) fuel (Level.ends_cons (by simp [Level.continuedBy]))
    (by simp only [Level.depth]; omega)
  have second := right rest fuel ends (by simp only [Level.depth]; omega)
  rw [expression, List.append_assoc, first, Option.bind_some]
  exact continued_on second

theorem Parses.choose (condition : Parses .either ts e₁) (yes : Parses .choice us e₂)
    (no : Parses .choice vs e₃) :
    Parses .choice (ts ++ .question :: (us ++ .colon :: vs)) (.choose e₁ e₂ e₃) := by
  intro rest fuel ends enough
  simp only [List.length_append, List.length_cons, Level.depth] at enough
  obtain ⟨fuel, rfl⟩ : ∃ f, fuel = f + 1 := ⟨fuel - 1, by omega⟩
  have first := condition (.question :: (us ++ .colon :: vs) ++ rest) fuel
    (Level.ends_cons (by simp [Level.continuedBy])) (by simp only [Level.depth]; omega)
  have second := yes (.colon :: vs ++ rest) fuel (Level.ends_cons (by simp [Level.continuedBy]))
    (by simp only [Level.depth]; omega)
  have third := no rest fuel ends (by simp only [Level.depth]; omega)
  rw [expression, List.append_assoc, first, Option.bind_some]
  simp only [List.cons_append, List.append_assoc] at second ⊢
  simp [chosen, second, expect, third]

def argumentTokens : List (List Token) → List Token
  | [] => [.closing]
  | [ts] => ts ++ [.closing]
  | ts :: rest => ts ++ .comma :: argumentTokens rest

theorem arguments_succ (filled : 0 < ts.length) (parses : Parses .choice ts e) (rest : List Token)
    (fuel : Nat) :
    arguments (fuel + 1) (ts ++ rest) = (expression fuel .choice (ts ++ rest)).bind
      (listed (arguments fuel)) := by
  cases ts with
  | nil => cases filled
  | cons t ts =>
    have other : t ≠ .closing := by
      intro closing
      have read := parses [] (6 * (t :: ts).length) Level.ends_nil (Nat.le_add_right ..)
      rw [closing, List.cons_append, expression_closing] at read
      cases read
    simp [arguments, other]

theorem arguments_parsed {tss : List (List Token)} {es : List Expr}
    (each : List.Forall₂ (Parses .choice) tss es) (rest : List Token) (fuel : Nat)
    (enough : 6 * (argumentTokens tss).length ≤ fuel) :
    arguments fuel (argumentTokens tss ++ rest) = some (es, rest) := by
  induction each generalizing fuel with
  | nil =>
    obtain ⟨fuel, rfl⟩ : ∃ f, fuel = f + 1 := ⟨fuel - 1, by simp [argumentTokens] at enough; omega⟩
    simp [argumentTokens, arguments]
  | @cons ts e tss es first more ih =>
    cases more with
    | nil =>
      simp only [argumentTokens, List.length_append, List.length_cons, List.length_nil] at enough
      obtain ⟨fuel, rfl⟩ : ∃ f, fuel = f + 1 := ⟨fuel - 1, by omega⟩
      have read := first (.closing :: rest) fuel (Level.ends_cons (by simp [Level.continuedBy]))
        (by omega)
      rw [argumentTokens, List.append_assoc, arguments_succ first.filled first]
      simp [read, listed]
    | cons second more =>
      simp only [argumentTokens, List.length_append, List.length_cons] at enough
      obtain ⟨fuel, rfl⟩ : ∃ f, fuel = f + 1 := ⟨fuel - 1, by omega⟩
      have read := fun more => first (.comma :: more) fuel
        (Level.ends_cons (by simp [Level.continuedBy])) (by omega)
      change arguments (fuel + 1) (ts ++ .comma :: argumentTokens _ ++ rest) = _
      rw [List.append_assoc, arguments_succ first.filled first, List.cons_append, read,
        Option.bind_some]
      simp only [listed]
      rw [ih fuel (by omega)]
      rfl

theorem Parses.call {f : String} {tss : List (List Token)} {es : List Expr}
    (each : List.Forall₂ (Parses .choice) tss es) :
    Parses .single (.name f :: .opening :: argumentTokens tss) (.call f es) := by
  intro rest fuel ends enough
  simp only [List.length_cons, Level.depth] at enough
  obtain ⟨fuel, rfl⟩ : ∃ f, fuel = f + 1 := ⟨fuel - 1, by omega⟩
  have read := arguments_parsed each rest fuel (by omega)
  simp [expression, read]

theorem ofTokens?_parsed (parses : Parses .choice ts e) : ofTokens? ts = some e := by
  have read := parses [] (6 * ts.length) Level.ends_nil (Nat.le_add_right ..)
  rw [List.append_nil] at read
  rw [ofTokens?, read]

end Viewflow.Expression
