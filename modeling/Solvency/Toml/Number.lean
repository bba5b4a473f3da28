import Solvency.Text.Digits
import Solvency.Text.Scan

/-! Integers of 64 bits and finite floating-point numbers. An underscore may stand between two
digits. -/

namespace Solvency.Toml

open Scan

def moreDigits (p : Char → Bool) : Scan (List Char) :=
  many (one p <|> char '_' *> one p)

def digits (p : Char → Bool) : Scan (List Char) := do
  return (← one p) :: (← moreDigits p)

def isNegative : Scan Bool := do
  return (← optional (one fun c => c == '+' || c == '-')) == some '-'

/-- No leading zeros. -/
def decimalDigits : Scan (List Char) :=
  (do return (← one fun c => c.isDigit && c != '0') :: (← moreDigits Char.isDigit)) <|>
    List.singleton <$> one (· == '0')

def signed (negative : Bool) (n : Nat) : Int := if negative then -n else n

def decimal : Scan Int := do
  let negative ← isNegative
  return signed negative (Digits.value 10 (← decimalDigits))

def inRadix (start : String) (radix : Nat) (p : Char → Bool) : Scan Int := do
  literal start
  return Digits.value radix (← digits p)

def integer : Scan Int := do
  let n ← inRadix "0x" 16 (fun c => c.isDigit || 'a' ≤ c.toLower && c.toLower ≤ 'f') <|>
    inRadix "0o" 8 (fun c => '0' ≤ c && c ≤ '7') <|>
    inRadix "0b" 2 (fun c => c == '0' || c == '1') <|> decimal
  if -9223372036854775808 ≤ n ∧ n ≤ 9223372036854775807 then return n else failure

def exponent : Scan Int := do
  discard (one fun c => c == 'e' || c == 'E')
  let negative ← isNegative
  return signed negative (Digits.value 10 (← digits Char.isDigit))

/-- Whether `m * 10 ^ e` rounds to a double: it is less than halfway from the largest one to the
next power of two. Only about the limit do the digits matter. -/
def isFinite (m : Nat) (e : Int) : Bool :=
  let places := (Nat.toDigits 10 m).length + e
  m == 0 || places < 309 ||
    places == 309 &&
      m * Nat.pow 10 e.toNat < (Nat.pow 2 1024 - Nat.pow 2 970) * Nat.pow 10 (-e).toNat

/-- A fraction, an exponent or both. Too large a number is refused, too small a one is not. -/
def floatDigits : Scan Unit := do
  let negative ← isNegative
  let whole ← decimalDigits
  let decimals ← optional (char '.' *> digits Char.isDigit)
  let power ← if decimals.isSome then optional exponent else some <$> exponent
  let decimals := decimals.getD []
  if negative || isFinite (Digits.value 10 (whole ++ decimals)) (power.getD 0 - decimals.length)
  then return () else failure

def float : Scan String :=
  passage (floatDigits <|> isNegative *> (literal "inf" <|> literal "nan"))

end Solvency.Toml
