/-!
The proleptic Gregorian calendar: the date of a day counted from 1 January 1970, and back.

Years are counted from March, so that the leap day is a year's last, in eras of 400 years with
146097 days each.
-/

namespace TradeReentry.Time

/-- A calendar date; `month` counts from 1 to 12 and `day` from 1. -/
structure Date where
  year : Int
  month : Nat
  day : Nat
deriving DecidableEq, Repr

namespace Date

/-- The days in an era of 400 years. -/
abbrev daysPerEra : Nat := 146097

/-- The number of 1 January 1970, counted from 1 March of the year 0. -/
abbrev epochOffset : Int := 719468

/-- The year of an era, from 0 to 399, that a day of the era belongs to. -/
def yearOfEra (dayOfEra : Nat) : Nat :=
  (dayOfEra - dayOfEra / 1460 + dayOfEra / 36524 - dayOfEra / 146096) / 365

/-- The days of an era before a year of it. -/
def daysBeforeYear (yearOfEra : Nat) : Nat := 365 * yearOfEra + yearOfEra / 4 - yearOfEra / 100

/-- The days of a year before a month of it, months being counted from March as 0. -/
def daysBeforeMonth (monthFromMarch : Nat) : Nat := (153 * monthFromMarch + 2) / 5

/-- The month that a day of a year belongs to, both counted from March as 0. -/
def monthFromMarch (dayOfYear : Nat) : Nat := (5 * dayOfYear + 2) / 153

/-- The date of a day, counted from 1 January 1970 as 0. -/
def ofDayIndex (index : Int) : Date :=
  let days := index + epochOffset
  let era := days / (daysPerEra : Int)
  let dayOfEra := (days % (daysPerEra : Int)).toNat
  let year := yearOfEra dayOfEra
  let dayOfYear := dayOfEra - daysBeforeYear year
  let march := monthFromMarch dayOfYear
  let month := if march < 10 then march + 3 else march - 9
  { year := 400 * era + year + (if march < 10 then 0 else 1)
    month := month
    day := dayOfYear - daysBeforeMonth march + 1 }

/-- The day, counted from 1 January 1970 as 0, of a date. -/
def dayIndex (date : Date) : Int :=
  let march := if date.month ≤ 2 then date.month + 9 else date.month - 3
  let year := date.year - (if date.month ≤ 2 then 1 else 0)
  let yearOfEra := (year % 400).toNat
  (year / 400) * daysPerEra +
    ((daysBeforeYear yearOfEra + daysBeforeMonth march + (date.day - 1) : Nat) : Int) - epochOffset

end Date

end TradeReentry.Time
