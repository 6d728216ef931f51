import Viewflow.Text.Basic

namespace Viewflow.Text.AccessPath

def isQuoteMark (c : Char) : Bool := c == '"' || c == '\''

def unquoted (inner : List Char) : List Char :=
  match inner with
  | [] => []
  | first :: rest =>
    match rest.getLast? with
    | some last => if isQuoteMark first && isQuoteMark last then rest.dropLast else inner
    | none => inner

def ended (current : List Char) (later : List (List Char)) : List (List Char) :=
  if current = [] then later else current :: later

mutual

def scanPlain (current : List Char) : List Char → List (List Char)
  | [] => ended current []
  | c :: rest =>
    if c = '\\' then scanEscaped current rest
    else if c = '.' then ended current (scanPlain [] rest)
    else if c = '[' then ended current (scanBracket [] rest)
    else scanPlain (current ++ [c]) rest

def scanEscaped (current : List Char) : List Char → List (List Char)
  | [] => ended current []
  | c :: rest => scanPlain (current ++ [c]) rest

-- Inside brackets; a bracket that is never closed ends with the text.
def scanBracket (inner : List Char) : List Char → List (List Char)
  | [] => [unquoted inner]
  | c :: rest =>
    if c = ']' then unquoted inner :: scanPlain [] rest
    else scanBracket (inner ++ [c]) rest

end

-- Segments stand behind dots or in brackets, with a backslash in front of a character that is meant
-- literally.
def split (path : List Char) : List (List Char) := scanPlain [] path

def segments (path : String) : List String := (split path.toList).map String.ofList

def accessors (datum : String) : List String → List String
  | [] => []
  | segment :: rest =>
    let reached := datum ++ "[" ++ quote segment ++ "]"
    reached :: accessors reached rest

-- Guarded access: each value on the way is tested before the next is read.
def guarded (path datum : String) : String := joined " && " (accessors datum (segments path))

def flat (path datum : String) : String :=
  datum ++ "[" ++ quote (joined "." (segments path)) ++ "]"

def escapeDots (segment : List Char) : List Char :=
  segment.flatMap fun c => if c = '.' then ['\\', '.'] else [c]

def flattened (path : String) : String :=
  joined "\\." ((split path.toList).map fun s => String.ofList (escapeDots s))

end Viewflow.Text.AccessPath
