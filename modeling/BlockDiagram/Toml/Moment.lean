/-!
# Dates and times

Days of the calendar and times of the day as TOML writes them: a date, a time, or a date and a time,
these with or without a distance from universal time. Seconds may be left out.
-/

namespace BlockDiagram.Toml

/-- The number of a given count of digits at the front of a text, and what follows them. -/
def takeNumber? : Nat → Nat → List Char → Option (Nat × List Char)
  | 0, n, cs => some (n, cs)
  | count + 1, n, c :: cs =>
    if c.isDigit then takeNumber? count (10 * n + (c.toNat - '0'.toNat)) cs else none
  | _ + 1, _, [] => none

/-- The number of a given count of digits behind one of the given characters. -/
def takeAfter? (marks : List Char) (count : Nat) : List Char → Option (Nat × List Char)
  | c :: cs => if marks.contains c then takeNumber? count 0 cs else none
  | [] => none

/-- Holds for the years with a leap day. -/
def isLeapYear (year : Nat) : Bool :=
  year % 4 = 0 && (year % 100 != 0 || year % 400 = 0)

/-- The number of days in a month. -/
def daysIn (year month : Nat) : Nat :=
  if month = 2 then if isLeapYear year then 29 else 28
  else if [4, 6, 9, 11].contains month then 30
  else 31

/-- What follows a date at the front of a text. -/
def afterDate? (cs : List Char) : Option (List Char) := do
  let (year, cs) ← takeNumber? 4 0 cs
  let (month, cs) ← takeAfter? ['-'] 2 cs
  let (day, cs) ← takeAfter? ['-'] 2 cs
  guard (1 ≤ month && month ≤ 12 && 1 ≤ day && day ≤ daysIn year month)
  return cs

/-- What follows a fraction of a second at the front of a text. -/
def afterFraction? : List Char → Option (List Char)
  | '.' :: cs => do
    guard (!(cs.takeWhile Char.isDigit).isEmpty)
    return cs.dropWhile Char.isDigit
  | cs => some cs

/-- What follows seconds at the front of a text; a minute can have one second more than sixty. -/
def afterSeconds? (cs : List Char) : Option (List Char) :=
  match cs with
  | ':' :: _ => do
    let (second, cs) ← takeAfter? [':'] 2 cs
    guard (second ≤ 60)
    afterFraction? cs
  | _ => some cs

/-- What follows a time at the front of a text. -/
def afterTime? (cs : List Char) : Option (List Char) := do
  let (hour, cs) ← takeNumber? 2 0 cs
  let (minute, cs) ← takeAfter? [':'] 2 cs
  guard (hour ≤ 23 && minute ≤ 59)
  afterSeconds? cs

/-- Holds for a distance from universal time, or none. -/
def isOffset (cs : List Char) : Bool :=
  if [[], ['Z'], ['z']].contains cs then true
  else
    match takeAfter? ['+', '-'] 2 cs with
    | none => false
    | some (hours, cs) =>
      match takeAfter? [':'] 2 cs with
      | some (minutes, []) => hours ≤ 23 && minutes ≤ 59
      | _ => false

/-- Holds for a date alone. -/
def isDate (cs : List Char) : Bool :=
  afterDate? cs = some []

/-- Holds for a date, a time, or a date and a time. -/
def isMoment (cs : List Char) : Bool :=
  match afterDate? cs with
  | none => afterTime? cs = some []
  | some [] => true
  | some (mark :: cs) => ['T', 't', ' '].contains mark && (afterTime? cs).any isOffset

end BlockDiagram.Toml
