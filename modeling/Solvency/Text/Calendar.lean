/-! Instants as calendar text in universal time. -/

namespace Solvency.Calendar

structure Date where
  year : Nat
  month : Nat
  day : Nat
deriving DecidableEq

/-- The date so many days after the first of January 1970. Years begin in March here, so that a
leap day comes last in its year, and 400 years are 146097 days. -/
def Date.ofDays (days : Nat) : Date :=
  let sinceMarch := days + 719468
  let dayOfEra := sinceMarch % 146097
  let yearOfEra := (dayOfEra - dayOfEra / 1460 + dayOfEra / 36524 - dayOfEra / 146096) / 365
  let dayOfYear := dayOfEra - (365 * yearOfEra + yearOfEra / 4 - yearOfEra / 100)
  let month := (5 * dayOfYear + 2) / 153
  let year := 400 * (sinceMarch / 146097) + yearOfEra
  { year := if month < 10 then year else year + 1
    month := if month < 10 then month + 3 else month - 9
    day := dayOfYear - (153 * month + 2) / 5 + 1 }

example : Date.ofDays 11016 = ⟨2000, 2, 29⟩ := by decide

def padded (width n : Nat) : String := .ofList ((toString n).toList.leftpad width '0')

def Date.text (d : Date) : String :=
  (if d.year ≤ 9999 then padded 4 d.year else "+" ++ toString d.year) ++ "-" ++
    padded 2 d.month ++ "-" ++ padded 2 d.day

/-- A part of a second, to the millisecond, the microsecond or the nanosecond. -/
def fractionText (nanoseconds : Nat) : String :=
  if nanoseconds = 0 then ""
  else if nanoseconds % 1000000 = 0 then "." ++ padded 3 (nanoseconds / 1000000)
  else if nanoseconds % 1000 = 0 then "." ++ padded 6 (nanoseconds / 1000)
  else "." ++ padded 9 nanoseconds

/-- An instant in nanoseconds since the beginning of 1970. -/
def instantText (time : Nat) : String :=
  let seconds := time / 1000000000
  (Date.ofDays (seconds / 86400)).text ++ "T" ++ padded 2 (seconds / 3600 % 24) ++ ":" ++
    padded 2 (seconds / 60 % 60) ++ ":" ++ padded 2 (seconds % 60) ++
    fractionText (time % 1000000000) ++ "Z"

end Solvency.Calendar
