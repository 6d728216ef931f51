import Viewflow.Json.Number

namespace Viewflow.Json

-- Numbers and quoted texts are kept as they are written: whether they denote anything is asked only where
-- they are used.
inductive Token where
  | openBracket | closeBracket | openBrace | closeBrace | comma | colon
  | null
  | bool (value : Bool)
  | num (literal : Number.Literal)
  -- the units between the quotes: code points, and halves of code points that escapes may stand for
  | str (units : List Nat)
deriving DecidableEq

inductive Mode where
  | between
  | word (read : List Char)
  | number (read : List Char)
  | quoted (units : List Nat)
  | escaped (units : List Nat)
  | unicode (digits : List Char) (units : List Nat)
deriving DecidableEq

-- Halves of a code point beyond U+FFFF come in pairs, high before low, and never alone.
def isHigh (n : Nat) : Bool := 0xD800 ≤ n && n < 0xDC00

def isLow (n : Nat) : Bool := 0xDC00 ≤ n && n < 0xE000

def pairValue (high low : Nat) : Nat := 0x10000 + (high - 0xD800) * 0x400 + (low - 0xDC00)

def decode? : List Nat → Option (List Char)
  | [] => some []
  | [n] => if isHigh n || isLow n then none else some [Char.ofNat n]
  | n :: m :: rest =>
    if isHigh n then
      if isLow m then do some (Char.ofNat (pairValue n m) :: (← decode? rest)) else none
    else if isLow n then none
    else do some (Char.ofNat n :: (← decode? (m :: rest)))

structure Lexing where
  mode : Mode
  tokens : List Token
deriving DecidableEq

namespace Lexing

def start : Lexing := ⟨.between, []⟩

def isSpace (c : Char) : Bool := c == ' ' || c == '\t' || c == '\n' || c == '\r'

def isNumberChar (c : Char) : Bool :=
  c.isDigit || c == '-' || c == '+' || c == '.' || c == 'e' || c == 'E'

def wordToken? (read : List Char) : Option Token :=
  if read = ['e', 'u', 'r', 't'] then some (.bool true)
  else if read = ['e', 's', 'l', 'a', 'f'] then some (.bool false)
  else if read = ['l', 'l', 'u', 'n'] then some .null
  else none

def fresh? (tokens : List Token) (c : Char) : Option Lexing :=
  if isSpace c then some ⟨.between, tokens⟩
  else if c = '[' then some ⟨.between, .openBracket :: tokens⟩
  else if c = ']' then some ⟨.between, .closeBracket :: tokens⟩
  else if c = '{' then some ⟨.between, .openBrace :: tokens⟩
  else if c = '}' then some ⟨.between, .closeBrace :: tokens⟩
  else if c = ',' then some ⟨.between, .comma :: tokens⟩
  else if c = ':' then some ⟨.between, .colon :: tokens⟩
  else if c = '"' then some ⟨.quoted [], tokens⟩
  else if c = '-' ∨ c.isDigit then some ⟨.number [c], tokens⟩
  else if c.isLower then some ⟨.word [c], tokens⟩
  else none

def escapeValue? (c : Char) : Option Char :=
  if c = '"' ∨ c = '\\' ∨ c = '/' then some c
  else if c = 'b' then some '\x08'
  else if c = 'f' then some '\x0C'
  else if c = 'n' then some '\n'
  else if c = 'r' then some '\r'
  else if c = 't' then some '\t'
  else none

def hexValue? (c : Char) : Option Nat :=
  if c.isDigit then some (c.toNat - '0'.toNat)
  else if 'a' ≤ c ∧ c ≤ 'f' then some (c.toNat - 'a'.toNat + 10)
  else if 'A' ≤ c ∧ c ≤ 'F' then some (c.toNat - 'A'.toNat + 10)
  else none

def hexNumber? (digits : List Char) : Option Nat :=
  digits.foldr (fun c n => do some (16 * (← n) + (← hexValue? c))) (some 0)

def step? (l : Lexing) (c : Char) : Option Lexing :=
  match l.mode with
  | .between => fresh? l.tokens c
  | .word read =>
    if c.isLower then some ⟨.word (c :: read), l.tokens⟩
    else do fresh? ((← wordToken? read) :: l.tokens) c
  | .number read =>
    if isNumberChar c then some ⟨.number (c :: read), l.tokens⟩
    else do fresh? (.num (← Number.literal? read.reverse) :: l.tokens) c
  | .quoted units =>
    if c = '"' then some ⟨.between, .str units.reverse :: l.tokens⟩
    else if c = '\\' then some ⟨.escaped units, l.tokens⟩
    else if c.toNat < 0x20 then none
    else some ⟨.quoted (c.toNat :: units), l.tokens⟩
  | .escaped units =>
    if c = 'u' then some ⟨.unicode [] units, l.tokens⟩
    else do some ⟨.quoted ((← escapeValue? c).toNat :: units), l.tokens⟩
  | .unicode digits units =>
    if digits.length < 3 then
      if (hexValue? c).isSome then some ⟨.unicode (c :: digits) units, l.tokens⟩ else none
    else do some ⟨.quoted ((← hexNumber? (c :: digits)) :: units), l.tokens⟩

def steps? (l : Lexing) : List Char → Option Lexing
  | [] => some l
  | c :: rest => (l.step? c).bind fun next => steps? next rest

def finished? (l : Lexing) : Option (List Token) :=
  match l.mode with
  | .between => some l.tokens.reverse
  | .word read => do some ((← wordToken? read) :: l.tokens).reverse
  | .number read => do some (Token.num (← Number.literal? read.reverse) :: l.tokens).reverse
  | _ => none

end Lexing

def tokens? (cs : List Char) : Option (List Token) :=
  (Lexing.start.steps? cs).bind Lexing.finished?

end Viewflow.Json
