import Viewflow.Json.Basic
import Viewflow.Text.Basic

namespace Viewflow.EventStream

def splitClose? (depth : Nat) : List Char → Option (List Char × List Char)
  | [] => none
  | c :: rest =>
    if c = ']' then
      match depth with
      | 0 => some ([], rest)
      | depth + 1 => (splitClose? depth rest).map fun s => (c :: s.1, s.2)
    else
      (splitClose? (if c = '[' then depth + 1 else depth) rest).map fun s => (c :: s.1, s.2)

def splitComma? (depth : Nat) : List Char → Option (List Char × List Char)
  | [] => none
  | c :: rest =>
    if c = ',' ∧ depth = 0 then some ([], rest)
    else
      let depth := if c = '[' then depth + 1 else if c = ']' then depth - 1 else depth
      (splitComma? depth rest).map fun s => (c :: s.1, s.2)

-- Events of the target count from a start event on until an end event.
structure Between where
  start : List Char
  stop : List Char
  target : List Char
deriving DecidableEq, Repr

namespace Between

def read? (stream : List Char) : Option Between :=
  match Text.trim stream with
  | '[' :: inner => do
    let (bracketed, behind) ← splitClose? 0 inner
    let (start, stop) ← splitComma? 0 bracketed
    match Text.trim behind with
    | '>' :: rest =>
      let target := Text.trim rest
      if target.isEmpty then none else some ⟨Text.trim start, Text.trim stop, target⟩
    | _ => none
  | _ => none

def chars (b : Between) : List Char :=
  '[' :: b.start ++ [',', ' '] ++ b.stop ++ [']', ' ', '>', ' '] ++ b.target

def text (b : Between) : String := String.ofList b.chars

def startText (b : Between) : String := String.ofList b.start

def filterStart (condition : List Char) (b : Between) : Between :=
  { b with start := b.start ++ '[' :: condition ++ [']'] }

end Between

-- A stream that says already where its events come from: a mark, a source, or a group in brackets.
def isPlaced (stream : List Char) : Bool :=
  stream.head? = some '@' || stream.head? = some '[' ||
    (stream.takeWhile fun c => c != '[' && c != '{').contains ':'

def onMark (mark : List Char) (stream : List Char) : List Char :=
  let stream := Text.trim stream
  if isPlaced stream then stream else '@' :: mark ++ ':' :: stream

def Between.startOnMark (mark : List Char) (b : Between) : Between :=
  { b with start := onMark mark b.start }

def streams : Json → List String
  | .str s => [s]
  | .arr items => items.filterMap fun item =>
    match item with
    | .str s => some s
    | _ => none
  | _ => []

end Viewflow.EventStream
