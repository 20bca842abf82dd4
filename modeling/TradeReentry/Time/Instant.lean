import TradeReentry.Text.Basic
import TradeReentry.Time.Calendar

/-!
Instants in milliseconds since the start of 1970 in UTC, and their three views: the ISO text, the
stamp of a file name and the number of the day. Their divisions round down (`floorDiv`), so that
instants before 1970 fall into the right second and day; only the stamp of a log line rounds toward
1970.
-/

namespace TradeReentry

/-- Milliseconds since the start of 1970 in UTC. -/
abbrev Instant := Int

namespace Instant

def millisPerDay : Int := 86400000

def millisPerHour : Int := 3600000

def millisPerMinute : Int := 60000

def millisPerSecond : Int := 1000

def secondsPerDay : Int := 86400

/-- Division that rounds down: the quotient toward zero, less one where something remains and the
signs differ. -/
def floorDiv (value divisor : Int) : Int :=
  let quotient := value.tdiv divisor
  if value.tmod divisor ≠ 0 ∧ decide (value < 0) ≠ decide (divisor < 0) then quotient - 1
  else quotient

/-- The number of the UTC day, 1 January 1970 being day 0. -/
def dayIndex (t : Instant) : Int := floorDiv t millisPerDay

/-- The whole seconds since the start of 1970. -/
def wholeSeconds (t : Instant) : Int := floorDiv t millisPerSecond

/-- The UTC date. -/
def date (t : Instant) : Time.Date := .ofDayIndex (t.wholeSeconds / secondsPerDay)

/-- The whole seconds since the day began. -/
def secondOfDay (t : Instant) : Nat := (t.wholeSeconds % secondsPerDay).toNat

/-- The milliseconds since the second began. -/
def millisecond (t : Instant) : Nat := (t - t.wholeSeconds * millisPerSecond).toNat

/-- A number written with at least two digits. -/
def twoDigits (n : Nat) : Text := Text.padZeros 2 (Text.ofNat n)

/-- Year, month and day between separators; the year is not padded. -/
def dateText (separator : Text) (t : Instant) : Text :=
  Text.ofInt t.date.year ++ separator ++ twoDigits t.date.month ++ separator ++
    twoDigits t.date.day

/-- Hour, minute and second between separators. -/
def clockText (separator : Text) (t : Instant) : Text :=
  twoDigits (t.secondOfDay / 3600) ++ separator ++ twoDigits (t.secondOfDay / 60 % 60) ++
    separator ++ twoDigits (t.secondOfDay % 60)

/-- The ISO 8601 text in UTC with milliseconds, such as `2026-01-15T10:00:00.000Z`. -/
def isoText (t : Instant) : Text :=
  t.dateText "-" ++ "T" ++ t.clockText ":" ++ "." ++
    Text.padZeros 3 (Text.ofNat t.millisecond) ++ "Z"

/-- The stamp in the name of a file opened at the instant, such as `20260115_100000`. -/
def fileStamp (t : Instant) : Text := t.dateText [] ++ "_" ++ t.clockText []

/-- The instant without the milliseconds that lead away from 1970. -/
def towardEpoch (t : Instant) : Instant := Int.tdiv t millisPerSecond * millisPerSecond

/-- The date and time at the head of a log line, such as `2026-01-15 10:00:00`. Unlike the other
views it counts whole seconds from 1970 in both directions. -/
def logStamp (t : Instant) : Text :=
  t.towardEpoch.dateText "-" ++ " " ++ t.towardEpoch.clockText ":"

end Instant

end TradeReentry
