import LogRelay.Text.Digits
import LogRelay.Time.Instant

/-!
# Points of wall-clock time

A timestamp counts nanoseconds from 1970-01-01T00:00:00Z, in either direction. Its civil reading
is in UTC on the proleptic Gregorian calendar, where year 0 precedes year 1.
-/

namespace LogRelay

structure Timestamp where
  nanos : Int
deriving DecidableEq, Repr

/-- A date and time of day in UTC. -/
structure Civil where
  year : Int
  month : Nat
  day : Nat
  hour : Nat
  minute : Nat
  second : Nat
  nano : Nat
deriving DecidableEq, Repr

namespace Timestamp

def ofMillis (n : Int) : Timestamp := ⟨n * 1000000⟩

/-- `seconds` and `nanos` may differ in sign; they are summed. -/
def ofParts (seconds nanos : Int) : Timestamp := ⟨seconds * 1000000000 + nanos⟩

def after (t : Timestamp) (d : Duration) : Timestamp := ⟨t.nanos + d⟩

/-- Milliseconds, rounded toward zero. -/
def millis (t : Timestamp) : Int := t.nanos.tdiv 1000000

/-- The calendar date of the day `n` days after 1970-01-01, counted in 400-year eras that begin on
a first of March. -/
def civilDate (n : Int) : Int × Nat × Nat :=
  let z := n + 719468
  let era := z.fdiv 146097
  let dayOfEra := (z.fmod 146097).toNat
  let yearOfEra := (dayOfEra - dayOfEra / 1460 + dayOfEra / 36524 - dayOfEra / 146096) / 365
  let dayOfYear := dayOfEra - (365 * yearOfEra + yearOfEra / 4 - yearOfEra / 100)
  let monthFromMarch := (5 * dayOfYear + 2) / 153
  let day := dayOfYear - (153 * monthFromMarch + 2) / 5 + 1
  let month := if monthFromMarch < 10 then monthFromMarch + 3 else monthFromMarch - 9
  let year := (yearOfEra : Int) + era * 400
  (if month ≤ 2 then year + 1 else year, month, day)

def civil (t : Timestamp) : Civil :=
  let seconds := t.nanos.fdiv 1000000000
  let ofDay := (seconds.fmod 86400).toNat
  let (year, month, day) := civilDate (seconds.fdiv 86400)
  { year, month, day
    hour := ofDay / 3600
    minute := ofDay / 60 % 60
    second := ofDay % 60
    nano := (t.nanos.fmod 1000000000).toNat }

end Timestamp

namespace Civil

/-- Four digits, or a sign and six where four do not do. -/
def isoYear (c : Civil) : String :=
  if c.year < 0 then "-" ++ Text.zeroPadded 6 c.year.natAbs
  else if 9999 < c.year then "+" ++ Text.zeroPadded 6 c.year.natAbs
  else Text.zeroPadded 4 c.year.natAbs

/-- Four characters at least, of which a negative year spends one on its sign. -/
def stampYear (c : Civil) : String :=
  if c.year < 0 then "-" ++ Text.zeroPadded 3 c.year.natAbs else Text.zeroPadded 4 c.year.natAbs

/-- `yyyyMMdd`. -/
def dateStamp (c : Civil) : String :=
  c.stampYear ++ Text.zeroPadded 2 c.month ++ Text.zeroPadded 2 c.day

/-- `yyyyMMddHHmmss`. -/
def secondStamp (c : Civil) : String :=
  c.dateStamp ++ Text.zeroPadded 2 c.hour ++ Text.zeroPadded 2 c.minute
    ++ Text.zeroPadded 2 c.second

/-- `yyyyMMddHH0000`. -/
def hourStamp (c : Civil) : String := c.dateStamp ++ Text.zeroPadded 2 c.hour ++ "0000"

/-- RFC 3339 in UTC, without trailing zeros in the fraction of a second. -/
def rfc3339 (c : Civil) : String :=
  c.isoYear ++ "-" ++ Text.zeroPadded 2 c.month ++ "-" ++ Text.zeroPadded 2 c.day ++ "T"
    ++ Text.zeroPadded 2 c.hour ++ ":" ++ Text.zeroPadded 2 c.minute ++ ":"
    ++ Text.zeroPadded 2 c.second ++ Text.fraction 9 c.nano ++ "Z"

end Civil

end LogRelay
