import PromptChain.Text.Basic

/-! Instants of universal time, and the names of files that are written at them. -/
namespace PromptChain

/-- A date and time of the Gregorian calendar, carried on to all years. -/
structure Instant where
  year : Int
  month : Nat
  day : Nat
  hour : Nat
  minute : Nat
  second : Nat
  millisecond : Nat
deriving DecidableEq, Repr

namespace Instant

def dayLength : Int :=
  86400000

/-- The year, month and day that stand the given number of days after the first of January 1970.
Years are counted from March on, in cycles of 400 years of 146097 days. -/
def civil (days : Int) : Int × Nat × Nat :=
  -- Days from the first of March of the year 0 on.
  let shifted := days + 719468
  let cycle := shifted.fdiv 146097
  let dayOfCycle := (shifted.fmod 146097).toNat
  let yearOfCycle :=
    (dayOfCycle - dayOfCycle / 1460 + dayOfCycle / 36524 - dayOfCycle / 146096) / 365
  let dayOfYear := dayOfCycle - (365 * yearOfCycle + yearOfCycle / 4 - yearOfCycle / 100)
  let shiftedMonth := (5 * dayOfYear + 2) / 153
  let day := dayOfYear - (153 * shiftedMonth + 2) / 5 + 1
  let month := if shiftedMonth < 10 then shiftedMonth + 3 else shiftedMonth - 9
  let year : Int := yearOfCycle + cycle * 400 + (if month ≤ 2 then 1 else 0)
  (year, month, day)

/-- The instant that is the given number of milliseconds after the start of 1970. -/
def ofMillis (millis : Int) : Instant :=
  let (year, month, day) := civil (millis.fdiv dayLength)
  let time := (millis.fmod dayLength).toNat
  { year, month, day
    hour := time / 3600000
    minute := time / 60000 % 60
    second := time / 1000 % 60
    millisecond := time % 1000 }

/-- The years of the instants that can be told. -/
def yearInRange (year : Int) : Bool :=
  -262143 ≤ year && year ≤ 262142

def ofMillis? (millis : Int) : Option Instant :=
  let instant := ofMillis millis
  if yearInRange instant.year then some instant else none

/-- A year of at least four digits. Years that are not from 0 to 9999 have a sign. -/
def yearText (year : Int) : Text :=
  let digits := Text.padded 4 year.natAbs
  if year < 0 then '-' :: digits else if year ≤ 9999 then digits else '+' :: digits

def text (i : Instant) : Text :=
  yearText i.year ++ '-' :: Text.padded 2 i.month ++ '-' :: Text.padded 2 i.day ++
    'T' :: Text.padded 2 i.hour ++ ':' :: Text.padded 2 i.minute ++ ':' :: Text.padded 2 i.second ++
    '.' :: Text.padded 3 i.millisecond ++ ['Z']

def fileName (i : Instant) : Text :=
  "response_".toList ++ i.text ++ ".json".toList

end Instant

end PromptChain
