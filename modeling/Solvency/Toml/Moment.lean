import Solvency.Text.Digits
import Solvency.Text.Scan

/-! Dates and times of day, together or alone. Only a date with a time has an offset. -/

namespace Solvency.Toml

open Scan

def numberIn (count low high : Nat) : Scan Nat := do
  let n := Digits.value 10 (← times count (one Char.isDigit))
  if low ≤ n ∧ n ≤ high then return n else failure

def isLeapYear (year : Nat) : Bool :=
  year % 4 == 0 && (year % 100 != 0 || year % 400 == 0)

def daysIn (year month : Nat) : Nat :=
  match month with
  | 2 => if isLeapYear year then 29 else 28
  | 4 | 6 | 9 | 11 => 30
  | _ => 31

def date : Scan Unit := do
  let year ← numberIn 4 0 9999
  char '-'
  let month ← numberIn 2 1 12
  char '-'
  discard (numberIn 2 1 (daysIn year month))

/-- The sixtieth second is a leap second. -/
def time : Scan Unit := do
  discard (numberIn 2 0 23)
  char ':'
  discard (numberIn 2 0 59)
  char ':'
  discard (numberIn 2 0 60)
  discard (optional (char '.' *> one Char.isDigit *> span Char.isDigit))

def offset : Scan Unit :=
  discard (one fun c => c == 'Z' || c == 'z') <|> do
    discard (one fun c => c == '+' || c == '-')
    discard (numberIn 2 0 23)
    char ':'
    discard (numberIn 2 0 59)

def timeOfDate : Scan Unit := do
  discard (one fun c => c == 'T' || c == 't' || c == ' ')
  time
  discard (optional offset)

def moment : Scan String := passage (date *> discard (optional timeOfDate) <|> time)

end Solvency.Toml
