import Deadwood.Time.Duration

/-! Points in time, counted in nanoseconds from the start of 1970, and their dates in universal time. -/

namespace Deadwood

structure Instant where
  nanoseconds : Int
  deriving DecidableEq, Repr

structure Civil where
  year : Int
  month : Nat
  day : Nat
  hour : Nat
  minute : Nat
  second : Nat
  nanosecond : Nat
  deriving DecidableEq, Repr

namespace Instant

def ofSeconds (s : Int) : Instant := ⟨s * Duration.second⟩

def ofMilliseconds (n : Int) : Instant := ⟨n * 1000000⟩

def since (t start : Instant) : Duration := ⟨t.nanoseconds - start.nanoseconds⟩

def seconds (t : Instant) : Int := t.nanoseconds / Duration.second

def calendarStart : Instant := ofSeconds (-62135596800)

/-- The date of a day counted from the start of 1970. Years are taken to begin in March, so that the day added in
leap years is their last, and are grouped in eras of four hundred. -/
def date (days : Int) : Int × Nat × Nat :=
  let shifted := days + 719468
  let era := shifted / 146097
  let dayOfEra := (shifted % 146097).toNat
  let yearOfEra := (dayOfEra - dayOfEra / 1460 + dayOfEra / 36524 - dayOfEra / 146096) / 365
  let dayOfYear := dayOfEra - (365 * yearOfEra + yearOfEra / 4 - yearOfEra / 100)
  let monthFromMarch := (5 * dayOfYear + 2) / 153
  let day := dayOfYear - (153 * monthFromMarch + 2) / 5 + 1
  let month := if monthFromMarch < 10 then monthFromMarch + 3 else monthFromMarch - 9
  let year := (yearOfEra : Int) + era * 400
  (if month ≤ 2 then year + 1 else year, month, day)

def civil (t : Instant) : Civil :=
  let (year, month, day) := date (t.seconds / 86400)
  let second := (t.seconds % 86400).toNat
  { year, month, day
    hour := second / 3600
    minute := second / 60 % 60
    second := second % 60
    nanosecond := (t.nanoseconds % Duration.second).toNat }

def calendarSeconds (t : Instant) : Int := (t.seconds - calendarStart.seconds).bmod Integer.wordSize

def saturated (s : Int) : Int :=
  if Integer.most < s then Integer.most else if s < Integer.least then -Integer.most else s

/-- Seconds from the first day that an unsigned word can count to the start of the calendar. -/
def beforeCalendar : Int := 292277022400 * 31556952 + 306 * 86400

/-- The hour of the day after a number of hours. Days are counted from the first that a word can count. -/
def hourAfter (t : Instant) (hours : Int) : Nat :=
  let later := saturated (t.calendarSeconds + (Duration.ofHours hours).nanoseconds / Duration.second)
  ((later + beforeCalendar) % Integer.wordSize % 86400 / 3600).toNat

end Instant

namespace Civil

def digits (width n : Nat) : Bytes := (Bytes.ofNat n).padStart width 48

def yearText (c : Civil) : Bytes :=
  (if c.year < 0 then bytes "-" else []) ++ digits 4 c.year.natAbs

def clock (c : Civil) : Bytes :=
  digits 2 c.hour ++ bytes ":" ++ digits 2 c.minute ++ bytes ":" ++ digits 2 c.second

def clockMillis (c : Civil) : Bytes := c.clock ++ bytes "." ++ digits 3 (c.nanosecond / 1000000)

def fraction (c : Civil) : Bytes :=
  let significant := (digits 9 c.nanosecond).dropEndWhile (· == 48)
  if significant = [] then [] else bytes "." ++ significant

def monthDay (c : Civil) : Bytes := digits 2 c.month ++ bytes "-" ++ digits 2 c.day

def date (c : Civil) : Bytes := c.yearText ++ bytes "-" ++ c.monthDay

def stamp (c : Civil) : Bytes := c.date ++ bytes "T" ++ c.clock

end Civil

end Deadwood
