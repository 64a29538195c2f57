import YamlStyle.Value

/-!
# Dates and times of TOML

A date, a time of day, or a date with a time behind it, with an offset from universal time or
without. A configuration has no use for any of them, but they are values and have to be told from
what is none: the day has to be a day of its month, and the hour, the minute and the second have to
be within their bounds.

A date-time is handed on as a table with a single entry of a reserved name. The entry is the
date-time written in one way: a `T` in front of the time, at most nine digits of a fraction and no
zeros at its end, and offsets with a sign.
-/

set_option autoImplicit false

namespace YamlStyle

namespace Toml

/-- A number of exactly this many digits. -/
def fixedDigits? (count : Nat) (text : Text) : Option (Text × Text) :=
  let ds := text.take count
  if ds.length == count && ds.all Char.isDigit then some (ds, text.drop count) else none

/-- A number of two digits within bounds. -/
def twoDigits? (least greatest : Nat) (text : Text) : Option (Text × Text) := do
  let (ds, rest) ← fixedDigits? 2 text
  if least ≤ decimalValue ds ∧ decimalValue ds ≤ greatest then some (ds, rest) else none

/-- Drop a character that has to be there. -/
def drop? (c : Char) : Text → Option Text
  | [] => none
  | d :: rest => if d == c then some rest else none

/-- Whether a year has a 29th of February. -/
def isLeap (year : Nat) : Bool := year % 4 == 0 && (year % 100 != 0 || year % 400 == 0)

/-- The number of days of a month. -/
def daysOf (year month : Nat) : Nat :=
  if month = 2 then (if isLeap year then 29 else 28)
  else if month = 4 ∨ month = 6 ∨ month = 9 ∨ month = 11 then 30
  else 31

/-- A date, as it is written. -/
def date? (text : Text) : Option (Text × Text) := do
  let (year, rest) ← fixedDigits? 4 text
  let (month, rest) ← twoDigits? 1 12 (← drop? '-' rest)
  let (day, rest) ← twoDigits? 1 (daysOf (decimalValue year) (decimalValue month)) (← drop? '-' rest)
  some (year ++ '-' :: month ++ '-' :: day, rest)

/-- A text without the zeros at its end. -/
def withoutLastZeros (ds : Text) : Text := (ds.reverse.dropWhile (· == '0')).reverse

/-- The fraction of a second, if there is one, cut off behind nine digits. -/
def secondFraction : Text → Text × Text
  | '.' :: rest =>
    match rest.takeWhile Char.isDigit with
    | [] => ([], '.' :: rest)
    | ds =>
      let written := match withoutLastZeros (ds.take 9) with
        | [] => []
        | ds => '.' :: ds
      (written, rest.dropWhile Char.isDigit)
  | rest => ([], rest)

/-- A time of day. A minute may have a leap second. -/
def time? (text : Text) : Option (Text × Text) := do
  let (hour, rest) ← twoDigits? 0 23 text
  let (minute, rest) ← twoDigits? 0 59 (← drop? ':' rest)
  let (second, rest) ← twoDigits? 0 60 (← drop? ':' rest)
  let (fraction, rest) := secondFraction rest
  some (hour ++ ':' :: minute ++ ':' :: second ++ fraction, rest)

/-- Hours and minutes of an offset. -/
def offsetSize? (sign : Char) (text : Text) : Option (Text × Text) := do
  let (hour, rest) ← twoDigits? 0 23 text
  let (minute, rest) ← twoDigits? 0 59 (← drop? ':' rest)
  let sign := if decimalValue hour = 0 ∧ decimalValue minute = 0 then '+' else sign
  some (sign :: hour ++ ':' :: minute, rest)

/-- The offset of a time, if there is one. -/
def offset : Text → Text × Text
  | [] => ([], [])
  | c :: rest =>
    if c == 'Z' || c == 'z' then (['Z'], rest)
    else if c == '+' || c == '-' then (offsetSize? c rest).getD ([], c :: rest)
    else ([], c :: rest)

/-- Whether a character may stand between a date and a time. -/
def isTimeMark (c : Char) : Bool := c == 'T' || c == 't' || c == ' '

/-- The time behind a date, if there is one. -/
def timeBehind (text : Text) : Text × Text :=
  match text with
  | [] => ([], [])
  | c :: rest =>
    if isTimeMark c then
      match time? rest with
      | some (time, rest) =>
        let (o, rest) := offset rest
        ('T' :: time ++ o, rest)
      | none => ([], text)
    else ([], text)

/-- A date-time, in the one way in which it is handed on. -/
def dateTime? (text : Text) : Option (String × Text) :=
  match date? text with
  | some (date, rest) =>
    let (time, rest) := timeBehind rest
    some (String.ofList (date ++ time), rest)
  | none => (time? text).map fun (time, rest) => (String.ofList time, rest)

/-- The name of the entry that holds a date-time. -/
def dateTimeKey : String := "$__toml_private_datetime"

end Toml

end YamlStyle
