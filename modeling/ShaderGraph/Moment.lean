import ShaderGraph.Instant

/-!
# Dates and times as they are written

A moment is a day, alone or with a time of that day. The time may have an offset from universal time
of less than a day, and then two moments are the same when they are the same in universal time.
-/

namespace ShaderGraph

/-- A time of the day. -/
structure TimeOfDay where
  hour : Nat
  minute : Nat
  second : Nat
  micros : Nat
  /-- The minutes that it is ahead of universal time, if that is known. -/
  offset : Option Int
deriving DecidableEq, Repr, Inhabited

/-- A day, alone or with a time. -/
structure Moment where
  date : Date
  time : Option TimeOfDay
deriving DecidableEq, Repr, Inhabited

namespace Date

/-- Whether the calendar has a day. -/
def isValid (d : Date) : Bool :=
  1 ≤ d.year && 1 ≤ d.month && 1 ≤ d.day
    && (match (monthLengths d.year)[d.month - 1]? with
      | some n => d.day ≤ n
      | none => false)

/-- The days from the start of the year one to the end of a day. -/
def number (d : Date) : Nat :=
  let y := d.year - 1
  y * 365 + y / 4 - y / 100 + y / 400 + ((monthLengths d.year).take (d.month - 1)).foldl (· + ·) 0 + d.day

end Date

namespace TimeOfDay

/-- Whether the day has a time. -/
def isValid (t : TimeOfDay) : Bool :=
  t.hour < 24 && t.minute < 60 && t.second < 60
    && (match t.offset with
      | some o => o.natAbs < 24 * 60
      | none => true)

/-- The microseconds since the start of the day. -/
def sinceMidnight (t : TimeOfDay) : Nat :=
  ((t.hour * 60 + t.minute) * 60 + t.second) * 1000000 + t.micros

end TimeOfDay

namespace Moment

/-- Whether a moment exists. -/
def isValid (m : Moment) : Bool := m.date.isValid && m.time.all (·.isValid)

/-- The microseconds of a time of a day since the start of the year one, less its offset. -/
def universal (d : Date) (t : TimeOfDay) (offset : Int) : Int :=
  (d.number * 86400000000 + t.sinceMidnight : Nat) - offset * 60000000

/-- Whether two moments are the same. -/
def isSame (m n : Moment) : Bool :=
  match m.time, n.time with
  | some t, some u =>
    match t.offset, u.offset with
    | some o, some p => universal m.date t o == universal n.date u p
    | _, _ => m == n
  | _, _ => m == n

/-- An offset as hours and minutes. -/
def offsetText (o : Int) : String :=
  (if o < 0 then "-" else "+") ++ Instant.padded 2 (o.natAbs / 60) ++ ":"
    ++ Instant.padded 2 (o.natAbs % 60)

/-- A moment alone. -/
def text (m : Moment) : String :=
  Instant.padded 4 m.date.year ++ "-" ++ Instant.padded 2 m.date.month ++ "-"
    ++ Instant.padded 2 m.date.day
    ++ (match m.time with
      | none => ""
      | some t =>
        " " ++ Instant.padded 2 t.hour ++ ":" ++ Instant.padded 2 t.minute ++ ":"
          ++ Instant.padded 2 t.second
          ++ (if t.micros = 0 then "" else "." ++ Instant.padded 6 t.micros)
          ++ (t.offset.map offsetText).getD "")

/-- An offset inside of a moment: days and seconds. -/
def offsetParts (o : Int) : String :=
  if o = 0 then "datetime.timezone.utc"
  else
    "datetime.timezone(datetime.timedelta("
      ++ (if o < 0 then "days=-1, seconds=" ++ toString (86400 + o * 60)
        else "seconds=" ++ toString (o * 60))
      ++ "))"

/-- The parts of a time without the zeros at its end: the second may be left out, with the
microsecond. -/
def timeParts (t : TimeOfDay) : List Nat :=
  [t.hour, t.minute]
    ++ (if t.micros ≠ 0 then [t.second, t.micros] else if t.second ≠ 0 then [t.second] else [])

/-- A moment inside of other values, taken apart. -/
def partsText (m : Moment) : String :=
  let numbers (ns : List Nat) := ", ".intercalate (ns.map toString)
  let day := [m.date.year, m.date.month, m.date.day]
  match m.time with
  | none => "datetime.date(" ++ numbers day ++ ")"
  | some t =>
    "datetime.datetime(" ++ numbers (day ++ timeParts t)
      ++ (match t.offset with
        | some o => ", tzinfo=" ++ offsetParts o
        | none => "")
      ++ ")"

end Moment

end ShaderGraph
