import Ttm.Text.Pad

/-!
Points in time as seconds and nanoseconds since the beginning of 1970, and their text as date and
time of day at zero offset.
-/

namespace Ttm

structure Timestamp where
  seconds : Int := 0
  nanos : Nat := 0
  deriving DecidableEq, Repr

namespace Timestamp

/-- A whole second's worth of nanoseconds counts as a second. -/
def ofParts (seconds : Int) (nanos : Nat) : Timestamp :=
  ⟨seconds + nanos / 1000000000, nanos % 1000000000⟩

/-- A date of the Gregorian calendar. -/
structure Date where
  year : Int
  month : Nat
  day : Nat
  deriving DecidableEq, Repr

/-- The date `days` days after the first of January 1970. Years are counted from March, in eras of
400 years, so that the leap day ends a year. -/
def dateOfDays (days : Int) : Date :=
  let shifted := days + 719468
  let era := shifted.fdiv 146097
  let dayOfEra := (shifted.fmod 146097).toNat
  let yearOfEra := (dayOfEra - dayOfEra / 1460 + dayOfEra / 36524 - dayOfEra / 146096) / 365
  let dayOfYear := dayOfEra - (365 * yearOfEra + yearOfEra / 4 - yearOfEra / 100)
  let marchMonth := (5 * dayOfYear + 2) / 153
  let month := if marchMonth < 10 then marchMonth + 3 else marchMonth - 9
  let year := yearOfEra + era * 400
  ⟨if month ≤ 2 then year + 1 else year, month, dayOfYear - (153 * marchMonth + 2) / 5 + 1⟩

/-- Four digits, with a sign outside the years 0 to 9999. -/
def yearText (year : Int) : String :=
  let digits := Text.zeroPadded 4 year.natAbs
  if year < 0 then "-" ++ digits else if 9999 < year then "+" ++ digits else digits

/-- Three, six or nine digits behind a point, as few as are exact, or nothing. -/
def fractionText (nanos : Nat) : String :=
  if nanos = 0 then ""
  else if nanos % 1000000 = 0 then "." ++ Text.zeroPadded 3 (nanos / 1000000)
  else if nanos % 1000 = 0 then "." ++ Text.zeroPadded 6 (nanos / 1000)
  else "." ++ Text.zeroPadded 9 nanos

def text (t : Timestamp) : String :=
  let date := dateOfDays (t.seconds.fdiv 86400)
  let second := (t.seconds.fmod 86400).toNat
  let two := Text.zeroPadded 2
  yearText date.year ++ "-" ++ two date.month ++ "-" ++ two date.day ++ "T" ++ two (second / 3600)
    ++ ":" ++ two (second / 60 % 60) ++ ":" ++ two (second % 60) ++ fractionText t.nanos ++ "+00:00"

end Timestamp
end Ttm
