import BuildFix.Toml.Number

/-!
# The scalars of TOML

A scalar is a word of a document: a truth value, a number, a date or a time.
Here it is decided whether a word is one.

Dates and times have to exist, where a minute may have a sixtieth second.
-/

namespace BuildFix.Toml

/-! ## Dates and times -/

/-- The number of `count` digits in front, and the rest. -/
def fixed? (count : Nat) (cs : List Char) : Option (Nat × List Char) :=
  let ds := cs.take count
  if ds.length = count && ds.all Char.isDigit then some (valueOf 10 ds, cs.drop count) else none

/-- The rest of a text behind a character. -/
def skip? (c : Char) : List Char → Option (List Char)
  | d :: cs => if d = c then some cs else none
  | [] => none

/-- The number of days of a month. -/
def daysOf (year month : Nat) : Nat :=
  if month = 2 then
    if year % 4 = 0 && (year % 100 ≠ 0 || year % 400 = 0) then 29 else 28
  else if month = 4 || month = 6 || month = 9 || month = 11 then 30
  else 31

/-- The rest of a text behind a date. -/
def date? (cs : List Char) : Option (List Char) := do
  let (year, cs) ← fixed? 4 cs
  let (month, cs) ← fixed? 2 (← skip? '-' cs)
  let (day, cs) ← fixed? 2 (← skip? '-' cs)
  if 1 ≤ month && month ≤ 12 && 1 ≤ day && day ≤ daysOf year month then some cs else none

/-- The rest of a text behind hours and minutes. -/
def clock? (cs : List Char) : Option (List Char) := do
  let (hour, cs) ← fixed? 2 cs
  let (minute, cs) ← fixed? 2 (← skip? ':' cs)
  if hour ≤ 23 && minute ≤ 59 then some cs else none

/-- The rest of a text behind a time of day.  The seconds may be left out. -/
def time? (cs : List Char) : Option (List Char) := do
  let cs ← clock? cs
  match cs with
  | ':' :: cs => do
      let (second, cs) ← fixed? 2 cs
      if 60 < second then none
      else match cs with
        | '.' :: cs =>
            if (cs.takeWhile Char.isDigit).isEmpty then none
            else some (cs.dropWhile Char.isDigit)
        | cs => some cs
  | cs => some cs

/-- Decide whether a text is the distance from universal time, or nothing. -/
def isOffset : List Char → Bool
  | [] | ['Z'] | ['z'] => true
  | c :: cs => (c = '+' || c = '-') && clock? cs == some []

/-- Decide whether a text is a date, a time, or both. -/
def isMoment (cs : List Char) : Bool :=
  match date? cs with
  | some [] => true
  | some (c :: rest) =>
      (c = 'T' || c = 't' || c = ' ') &&
        match time? rest with
        | some rest => isOffset rest
        | none => false
  | none => time? cs == some []

/-! ## Scalars -/

/-- What a word spells. -/
inductive Scalar where
  /-- A truth value. -/
  | truth
  /-- A number. -/
  | number (n : Number)
  /-- A date, a time, or both. -/
  | moment
deriving DecidableEq, Repr, Inhabited

/-- The scalar that a word spells. -/
def Scalar.ofWord? (cs : List Char) : Option Scalar :=
  if cs = "true".toList || cs = "false".toList then some .truth
  else if isMoment cs then some .moment
  else (Number.ofWord? cs).map .number

/-- Decide whether a scalar can be held. -/
def Scalar.isHeld : Scalar → Bool
  | number n => n.isHeld
  | truth | moment => true

example : Scalar.ofWord? "1979-05-27T07:32:00Z".toList = some .moment ∧
    Scalar.ofWord? "2023-02-29".toList = none ∧ Scalar.ofWord? "bare".toList = none := by
  decide +kernel

end BuildFix.Toml
