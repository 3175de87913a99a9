/-!
# Instants

A point in time is a number of seconds since the start of the year 1970, which
may be negative, and the nanoseconds after that second.  It is written with a
date of the Gregorian calendar, the time of day and a `Z`.

A leap second has no number.  It follows the last second of a minute, so an instant
in it has the number of that second and more than a second in nanoseconds, and it is
written as second `60`.

The fraction of a second has no digits, or three, six or nine of them: the
fewest that lose nothing.  A year outside `0` to `9999` has a sign.
-/

namespace BuildFix

/-- A point in time. -/
structure Instant where
  /-- The seconds since the start of the year 1970. -/
  seconds : Int
  /-- The nanoseconds after that second. -/
  nanos : Nat
deriving DecidableEq, Repr, Inhabited

/-- A date of the Gregorian calendar. -/
structure Date where
  /-- The year. -/
  year : Int
  /-- The month, from 1. -/
  month : Nat
  /-- The day of the month, from 1. -/
  day : Nat
deriving DecidableEq, Repr

/-- The date so many days after the first of January 1970.

The year is taken to start in March, so that a leap day is the last of its year.
Then 400 years have 146097 days, and five months have 153. -/
def Date.ofDays (days : Int) : Date :=
  let shifted := days + 719468
  let era := shifted / 146097
  let day := (shifted % 146097).toNat
  let year := (day - day / 1460 + day / 36524 - day / 146096) / 365
  let dayOfYear := day - (365 * year + year / 4 - year / 100)
  let month := (5 * dayOfYear + 2) / 153
  let calendarMonth := if month < 10 then month + 3 else month - 9
  { year := 400 * era + year + (if calendarMonth ≤ 2 then 1 else 0)
    month := calendarMonth
    day := dayOfYear - (153 * month + 2) / 5 + 1 }

/-- A number with at least `width` digits. -/
def padded (width n : Nat) : String :=
  let digits := Nat.toDigits 10 n
  String.ofList (List.replicate (width - digits.length) '0' ++ digits)

/-- The date as text. -/
def Date.text (d : Date) : String :=
  let year :=
    if d.year < 0 then "-" ++ padded 4 d.year.natAbs
    else if 9999 < d.year then "+" ++ padded 4 d.year.natAbs
    else padded 4 d.year.natAbs
  year ++ "-" ++ padded 2 d.month ++ "-" ++ padded 2 d.day

namespace Instant

/-- The fraction of a second as text. -/
def fraction (nanos : Nat) : String :=
  if nanos = 0 then ""
  else if nanos % 1000000 = 0 then "." ++ padded 3 (nanos / 1000000)
  else if nanos % 1000 = 0 then "." ++ padded 6 (nanos / 1000)
  else "." ++ padded 9 nanos

/-- The seconds since midnight. -/
def secondOfDay (t : Instant) : Nat := (t.seconds % 86400).toNat

/-- Decide whether an instant lies in a leap second. -/
def inLeap (t : Instant) : Bool := 1000000000 ≤ t.nanos

/-- The instant as text. -/
def text (t : Instant) : String :=
  let second := t.secondOfDay
  (Date.ofDays (t.seconds / 86400)).text ++ "T" ++ padded 2 (second / 3600) ++ ":" ++
    padded 2 (second / 60 % 60) ++ ":" ++ padded 2 (second % 60 + t.nanos / 1000000000) ++
    fraction (t.nanos % 1000000000) ++ "Z"

/-- The nanoseconds since the start of the year 1970. -/
def total (t : Instant) : Int := t.seconds * 1000000000 + t.nanos

/-- The leap second between two instants.  One that an instant lies in is between it
and a time that is later on the clock, whatever the date. -/
def leapUntil (start stop : Instant) : Int :=
  if start.inLeap && start.secondOfDay < stop.secondOfDay then 1
  else if stop.inLeap && stop.secondOfDay < start.secondOfDay then -1
  else 0

/-- The whole milliseconds from one instant to a later one. -/
def millisUntil (start stop : Instant) : Nat :=
  (stop.total - start.total + start.leapUntil stop * 1000000000).toNat / 1000000

/-- Away from leap seconds the milliseconds are those between the numbers. -/
theorem millisUntil_of_not_inLeap {start stop : Instant} (h : start.inLeap = false)
    (h' : stop.inLeap = false) :
    start.millisUntil stop = (stop.total - start.total).toNat / 1000000 := by
  simp [millisUntil, leapUntil, h, h']

example : (Instant.mk 951782400 42000000).text = "2000-02-29T00:00:00.042Z" := by decide +kernel
example : (Instant.mk 253402300800 0).text = "+10000-01-01T00:00:00Z" := by decide +kernel
example : (Instant.mk (-62167219201) 0).text = "-0001-12-31T23:59:59Z" := by decide +kernel
example : (Instant.mk 1483228799 1250000000).text = "2016-12-31T23:59:60.250Z" := by
  decide +kernel

end Instant

end BuildFix
