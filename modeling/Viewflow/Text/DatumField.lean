import Viewflow.Text.Basic
import Viewflow.Text.WordChar

namespace Viewflow.Text.DatumField

-- What may stand in a name, or before one: these make the word part of something longer.
def joins (c : Char) : Bool := isWordChar c || c == '$'

def startsName (c : Char) : Bool := c.isAlpha || c == '_' || c == '$'

def datumWord : List Char := ['d', 'a', 't', 'u', 'm']

def after? (beginning : List Char) (cs : List Char) : Option (List Char) :=
  if beginning.isPrefixOf cs then some (cs.drop beginning.length) else none

abbrev Found := List Char × List Char

def member? : List Char → Option Found
  | c :: rest => if startsName c then some (c :: rest.takeWhile joins, rest.dropWhile joins) else none
  | [] => none

def quotedName? (mark : Char) (cs : List Char) : Option Found :=
  match cs.dropWhile (· != mark) with
  | [] => none
  | _ :: behind =>
    match trimStart behind with
    | ']' :: rest => some (cs.takeWhile (· != mark), rest)
    | _ => none

def bracketed? (cs : List Char) : Option Found :=
  match trimStart cs with
  | '"' :: rest => quotedName? '"' rest
  | '\'' :: rest => quotedName? '\'' rest
  | _ => none

-- The word with a name behind a dot, or with a quoted name in brackets.
def access? (cs : List Char) : Option Found :=
  match after? datumWord cs with
  | some ('.' :: rest) => member? rest
  | some ('[' :: rest) => bracketed? rest
  | _ => none

def separated? : List Char → Option Found
  | c :: rest => if joins c || c == '.' then none else access? rest
  | [] => none

-- Left to right and without overlaps: a found access is skipped as a whole, so that the character
-- before the next one lies behind it.
def scan (skip : Nat) : List Char → List (List Char)
  | [] => []
  | c :: rest =>
    match skip with
    | skip + 1 => scan skip rest
    | 0 =>
      match separated? (c :: rest) with
      | some (name, behind) => name :: scan (rest.length - behind.length) rest
      | none => scan 0 rest

def names (cs : List Char) : List (List Char) :=
  match access? cs with
  | some (name, behind) => name :: scan (cs.length - behind.length) cs
  | none => scan 0 cs

def fields (expression : String) : List String :=
  (names expression.toList).map String.ofList

end Viewflow.Text.DatumField
