/-!
# Moments in time

A moment is counted in microseconds since the start of 1970, in universal time. It shows as a date
and a time of the day, as the ISO standard writes them or for a reader.
-/

namespace ShaderGraph

/-- A moment in universal time. -/
structure Instant where
  /-- Microseconds since the start of 1970. -/
  micros : Nat
deriving DecidableEq, Repr, Inhabited

/-- A day of the calendar. -/
structure Date where
  year : Nat
  month : Nat
  day : Nat
deriving DecidableEq, Repr, Inhabited

namespace Date

def isLeap (year : Nat) : Bool := year % 4 == 0 && (year % 100 != 0 || year % 400 == 0)

/-- The lengths of the months of a year. -/
def monthLengths (year : Nat) : List Nat :=
  [31, if isLeap year then 29 else 28, 31, 30, 31, 30, 31, 31, 30, 31, 30, 31]

def yearLength (year : Nat) : Nat := if isLeap year then 366 else 365

/-- The year that is `days` after the start of a year, and the days since its own start, looked for
among so many years. -/
def yearAfter : Nat → Nat → Nat → Nat × Nat
  | 0, year, days => (year, days)
  | n + 1, year, days =>
    if days < yearLength year then (year, days) else yearAfter n (year + 1) (days - yearLength year)

/-- The month that is `days` after the start of a month, and the days since its own start. -/
def monthAfter (month days : Nat) : List Nat → Nat × Nat
  | [] => (month, days)
  | n :: ns => if days < n then (month, days) else monthAfter (month + 1) (days - n) ns

/-- The day that is so many days after the first of 1970. -/
def ofDays (days : Nat) : Date :=
  let (year, rest) := yearAfter (days / 365 + 1) 1970 days
  let (month, rest) := monthAfter 1 rest (monthLengths year)
  ⟨year, month, rest + 1⟩

end Date

namespace Instant

/-- A moment a number of seconds after the start of 1970. -/
def ofSeconds (s : Nat) : Instant := ⟨s * 1000000⟩

/-- A number with so many digits at least. -/
def padded (width n : Nat) : String :=
  let ds := toString n
  String.ofList (List.replicate (width - ds.length) '0') ++ ds

def seconds (t : Instant) : Nat := t.micros / 1000000

/-- The day as year, month and day. -/
def dateText (t : Instant) : String :=
  let d := Date.ofDays (t.seconds / 86400)
  padded 4 d.year ++ "-" ++ padded 2 d.month ++ "-" ++ padded 2 d.day

/-- The time of the day as hours, minutes and seconds. -/
def timeText (t : Instant) : String :=
  padded 2 (t.seconds / 3600 % 24) ++ ":" ++ padded 2 (t.seconds / 60 % 60) ++ ":"
    ++ padded 2 (t.seconds % 60)

/-- The fraction of a second, if there is one. -/
def fractionText (t : Instant) : String :=
  if t.micros % 1000000 = 0 then "" else "." ++ padded 6 (t.micros % 1000000)

/-- A moment in the ISO form. -/
def iso (t : Instant) : String := t.dateText ++ "T" ++ t.timeText ++ t.fractionText ++ "+00:00"

/-- A moment for a reader, in whole seconds. -/
def readable (t : Instant) : String := t.dateText ++ " " ++ t.timeText ++ " UTC"

end Instant

end ShaderGraph
