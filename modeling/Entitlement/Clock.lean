import Entitlement.Store
/-!
A clock that is set by hand, and its time as a date. Dates are those of the Gregorian calendar in
UTC, as far as its years can be written with six digits.
-/

namespace Entitlement

structure Clock where
  -- the start of 2024 unless something else is said
  millis : Instant := 1704067200000
deriving DecidableEq, Repr

namespace Clock

structure Date where
  year : Nat
  month : Nat
  day : Nat
deriving DecidableEq, Repr

-- Years are counted from March, so that a leap day is the last day of its year; `era` is a cycle of
-- 400 years.
def Date.ofDays (days : Nat) : Date :=
  let fromMarch := days + 719468
  let era := fromMarch / 146097
  let day := fromMarch % 146097
  let year := (day - day / 1460 + day / 36524 - day / 146096) / 365
  let dayOfYear := day - (365 * year + year / 4 - year / 100)
  let month := (5 * dayOfYear + 2) / 153
  { year := era * 400 + year + (if month < 10 then 0 else 1)
    month := if month < 10 then month + 3 else month - 9
    day := dayOfYear - (153 * month + 2) / 5 + 1 }

def advance (clock : Clock) (millis : UInt64) : Clock :=
  ⟨clock.millis + millis⟩

def advanceSeconds (clock : Clock) (seconds : UInt64) : Clock :=
  clock.advance (seconds * 1000)

def set (_ : Clock) (millis : Instant) : Clock :=
  ⟨millis⟩

def seconds (clock : Clock) : Nat :=
  clock.millis.toNat / 1000

def padded (width n : Nat) : String :=
  let digits := Nat.toDigits 10 n
  String.ofList (List.replicate (width - digits.length) '0' ++ digits)

-- Years of more than four digits have a sign.
def yearText (year : Nat) : String :=
  if year ≤ 9999 then padded 4 year else "+" ++ toString year

def Date.text (date : Date) : String :=
  yearText date.year ++ "-" ++ padded 2 date.month ++ "-" ++ padded 2 date.day

def timeText (secondOfDay millis : Nat) : String :=
  padded 2 (secondOfDay / 3600) ++ ":" ++ padded 2 (secondOfDay / 60 % 60) ++ ":" ++
    padded 2 (secondOfDay % 60) ++ (if millis = 0 then "" else "." ++ padded 3 millis)

-- The last year that can be written.
def lastYear : Nat := 262142

-- An instant after the last year is shown as the start of 1970.
def rfc3339 (clock : Clock) : String :=
  let date := Date.ofDays (clock.seconds / 86400)
  if date.year ≤ lastYear then
    date.text ++ "T" ++ timeText (clock.seconds % 86400) (clock.millis.toNat % 1000) ++ "+00:00"
  else "1970-01-01T00:00:00+00:00"

def describe (clock : Clock) : String :=
  "FixedClock \x7b millis: " ++ toString clock.millis ++ " \x7d"

end Clock
end Entitlement
