import Viewflow.Json.Reader
import Viewflow.Text.Basic

namespace Viewflow.Expression

inductive Token where
  | name (name : String)
  | text (text : String)
  | opening | closing | comma | bang | equals | ampersands | bars | question | colon
deriving DecidableEq, Repr

inductive Mode where
  | between
  | name (read : List Char)
  | mark (read : List Char)
  | quoted (inner : Json.Lexing)
deriving DecidableEq

structure Lexing where
  mode : Mode
  tokens : List Token
deriving DecidableEq

namespace Lexing

def start : Lexing := ⟨.between, []⟩

def startsName (c : Char) : Bool := Text.isIdentifierChar c && !c.isDigit

def fresh? (tokens : List Token) (c : Char) : Option Lexing :=
  if c = ' ' then some ⟨.between, tokens⟩
  else if c = '(' then some ⟨.between, .opening :: tokens⟩
  else if c = ')' then some ⟨.between, .closing :: tokens⟩
  else if c = ',' then some ⟨.between, .comma :: tokens⟩
  else if c = '!' then some ⟨.between, .bang :: tokens⟩
  else if c = '?' then some ⟨.between, .question :: tokens⟩
  else if c = ':' then some ⟨.between, .colon :: tokens⟩
  else if c = '"' then some ⟨.quoted ⟨.quoted [], []⟩, tokens⟩
  else if c = '=' ∨ c = '&' ∨ c = '|' then some ⟨.mark [c], tokens⟩
  else if startsName c then some ⟨.name [c], tokens⟩
  else none

def marked? (read : List Char) (tokens : List Token) : Option Lexing :=
  if read = ['=', '=', '='] then some ⟨.between, .equals :: tokens⟩
  else if read = ['&', '&'] then some ⟨.between, .ampersands :: tokens⟩
  else if read = ['|', '|'] then some ⟨.between, .bars :: tokens⟩
  else if read = ['=', '='] then some ⟨.mark read, tokens⟩
  else none

def quoted? (tokens : List Token) : Json.Lexing → Option Lexing
  | ⟨.between, [.str units]⟩ =>
    (Json.Expected.textOf? units).map fun s => ⟨.between, .text s :: tokens⟩
  | inner => some ⟨.quoted inner, tokens⟩

def step? (l : Lexing) (c : Char) : Option Lexing :=
  match l.mode with
  | .between => fresh? l.tokens c
  | .name read =>
    if Text.isIdentifierChar c then some ⟨.name (c :: read), l.tokens⟩
    else fresh? (.name (String.ofList read.reverse) :: l.tokens) c
  | .mark read => marked? (c :: read) l.tokens
  | .quoted inner => (inner.step? c).bind (quoted? l.tokens)

def finished? (l : Lexing) : Option (List Token) :=
  match l.mode with
  | .between => some l.tokens.reverse
  | .name read => some (Token.name (String.ofList read.reverse) :: l.tokens).reverse
  | _ => none

def read? (l : Lexing) (cs : List Char) : Option (List Token) :=
  (cs.foldlM step? l).bind finished?

end Lexing

def tokens? (text : String) : Option (List Token) := Lexing.start.read? text.toList

inductive Expr where
  | name (name : String)
  | text (text : String)
  | call (function : String) (arguments : List Expr)
  | not (e : Expr)
  | equal (a b : Expr)
  | both (a b : Expr)
  | either (a b : Expr)
  | choose (condition yes no : Expr)

inductive Level where
  | choice | either | both | equal | negation | single
deriving DecidableEq

def expect (token : Token) : List Token → Option (List Token)
  | [] => none
  | t :: rest => if t = token then some rest else none

def continued (operator : Token) (join : Expr → Expr → Expr)
    (more : List Token → Option (Expr × List Token)) (first : Expr × List Token) :
    Option (Expr × List Token) :=
  match first with
  | (a, t :: rest) =>
    if t = operator then (more rest).map fun b => (join a b.1, b.2) else some (a, t :: rest)
  | (a, []) => some (a, [])

def chosen (branch : List Token → Option (Expr × List Token)) (first : Expr × List Token) :
    Option (Expr × List Token) :=
  match first with
  | (condition, .question :: ts) => do
    let (yes, ts) ← branch ts
    let ts ← expect .colon ts
    let (no, ts) ← branch ts
    some (.choose condition yes no, ts)
  | (condition, ts) => some (condition, ts)

def listed (more : List Token → Option (List Expr × List Token)) (first : Expr × List Token) :
    Option (List Expr × List Token) :=
  match first with
  | (e, .comma :: ts) => (more ts).map fun es => (e :: es.1, es.2)
  | (e, .closing :: ts) => some ([e], ts)
  | _ => none

mutual

def expression : Nat → Level → List Token → Option (Expr × List Token)
  | 0, _, _ => none
  | fuel + 1, .choice, ts => (expression fuel .either ts).bind (chosen (expression fuel .choice))
  | fuel + 1, .either, ts =>
    (expression fuel .both ts).bind (continued .bars .either (expression fuel .either))
  | fuel + 1, .both, ts =>
    (expression fuel .equal ts).bind (continued .ampersands .both (expression fuel .both))
  | fuel + 1, .equal, ts =>
    (expression fuel .negation ts).bind (continued .equals .equal (expression fuel .negation))
  | fuel + 1, .negation, .bang :: ts => (expression fuel .negation ts).map fun e => (.not e.1, e.2)
  | fuel + 1, .negation, ts => expression fuel .single ts
  | fuel + 1, .single, .name f :: .opening :: ts =>
    (arguments fuel ts).map fun as => (.call f as.1, as.2)
  | _ + 1, .single, .name s :: ts => some (.name s, ts)
  | _ + 1, .single, .text s :: ts => some (.text s, ts)
  | fuel + 1, .single, .opening :: ts => do
    let (e, ts) ← expression fuel .choice ts
    let ts ← expect .closing ts
    some (e, ts)
  | _ + 1, .single, _ => none

def arguments : Nat → List Token → Option (List Expr × List Token)
  | 0, _ => none
  | _ + 1, .closing :: ts => some ([], ts)
  | fuel + 1, ts => (expression fuel .choice ts).bind (listed (arguments fuel))

end

-- Nothing may be left. No tree is deeper than its tokens allow.
def ofTokens? (ts : List Token) : Option Expr :=
  match expression (6 * ts.length) .choice ts with
  | some (e, []) => some e
  | _ => none

def ofText? (text : String) : Option Expr := (tokens? text).bind ofTokens?

-- What only the running engine can decide.
inductive Atom where
  -- a test of the item at hand, against a whole store or what one view put into it
  | tests (template store : String) (view : Option String)
  | filled (store : String)
  | current (unit view : String)
deriving DecidableEq

def Expr.value? (truth : Atom → Bool) : Expr → Option Bool
  | .name "true" => some true
  | .name "false" => some false
  | .call template [.text store, .name "datum"] => some (truth (.tests template store none))
  | .call template [.text store, .name "datum", .text view] =>
    some (truth (.tests template store (some view)))
  | .call "length" [.call "data" [.text store]] => some (truth (.filled store))
  | .equal (.name unit) (.text view) => some (truth (.current unit view))
  | .not e => (e.value? truth).map (! ·)
  | .both a b => do some ((← a.value? truth) && (← b.value? truth))
  | .either a b => do some ((← a.value? truth) || (← b.value? truth))
  | .choose condition yes no => do
    let yes ← yes.value? truth
    let no ← no.value? truth
    some (if ← condition.value? truth then yes else no)
  | _ => none

end Viewflow.Expression
