import Viewflow.Text.AccessPath

namespace Viewflow.TimeUnit

def all : List String :=
  ["year", "quarter", "month", "day", "date", "hours", "minutes", "seconds", "milliseconds",
    "yearquarter", "yearquartermonth", "yearmonth", "yearmonthdate", "yearmonthdatehours",
    "yearmonthdatehoursminutes", "yearmonthdatehoursminutesseconds", "quartermonth", "monthdate",
    "hoursminutes", "hoursminutesseconds", "minutesseconds", "secondsmilliseconds"]

def utcMark : List Char := ['u', 't', 'c']

def isUtc (unit : String) : Bool := utcMark.isPrefixOf unit.toList

def isKnown (unit : String) : Bool :=
  all.contains (if isUtc unit then String.ofList (unit.toList.drop utcMark.length) else unit)

def before? (part : List Char) : List Char → Option (List Char)
  | [] => if part.isEmpty then some [] else none
  | c :: rest =>
    if part.isPrefixOf (c :: rest) then some [] else (before? part rest).map (c :: ·)

-- Seconds right behind an i are the end of milliseconds.
def contains (unit part : String) : Bool :=
  match before? part.toList unit.toList with
  | none => false
  | some before => part != "seconds" || before.getLast? != some 'i'

-- Parts that the unit omits come from a fixed date in 2012, so that truncated values stay
-- comparable. A day of the week becomes a day of the first week of 2006, which starts on a Sunday.
def expression (unit field : String) : String :=
  let utc := if isUtc unit then "utc" else ""
  let reference := Text.AccessPath.guarded field "datum"
  let call := fun part => utc ++ part ++ "(" ++ reference ++ ")"
  let part := fun name => if contains unit name then some (call name) else none
  let day := part "day"
  let year := if day.isSome then "2006" else (part "year").getD "2012"
  let month := match part "month" with
    | some month => month
    | none => if contains unit "quarter" then "(" ++ call "quarter" ++ "-1)*3" else "0"
  let date := match day with
    | some day => day ++ "+1"
    | none => (part "date").getD "1"
  let rest := ["hours", "minutes", "seconds", "milliseconds"].map fun name => (part name).getD "0"
  utc ++ "datetime(" ++ Text.joined ", " ([year, month, date] ++ rest) ++ ")"

end Viewflow.TimeUnit
