import Solvency.Fixed
import Solvency.Text.Digits

/-! Fixed-point numbers as decimal text. Printing gives at most fifteen places, stops
at the first text that is close enough to tell neighbours apart, and rounds the last place. -/

namespace Solvency.Fixed

/-- What fractions are counted in while they are printed: `2 ^ 64` to the whole. -/
def word : Nat := 18446744073709551616

/-- Digits after the point from a fraction, with what they leave over. They end once the
rest is within `tie` of zero or one, where `tie` is half a unit of the last binary place. -/
def places : (limit digits frac tie : Nat) → (count : Nat) → Nat × Nat × Nat
  | 0, digits, frac, _, count => (digits, count, frac)
  | limit + 1, digits, frac, tie, count =>
    let digits := 10 * digits + 10 * frac / word
    let frac := 10 * frac % word
    let close (n : Nat) : Bool := frac < n || (word - frac) % word < n
    if close 10 then
      (digits, count + 1, frac)
    else
      let tie := 10 * tie % word
      if close tie then (digits, count + 1, frac) else places limit digits frac tie (count + 1)

/-- Above half a unit, and at half a unit with an odd last digit, the digits go up by one. -/
def roundsUp (digits frac : Nat) : Bool :=
  word < 2 * frac || 2 * frac == word && digits % 2 == 1

def trimZeros (digits : List Char) : List Char :=
  (digits.reverse.dropWhile (· == '0')).reverse

def text (x : Fixed) : String :=
  let magnitude := x.raw.natAbs
  let one := scale.toNat
  let unit := word / one
  let (digits, count, frac) := places 15 0 (magnitude % one * unit) (unit / 2) 0
  let power := Nat.pow 10 count
  let scaled := magnitude / one * power + digits + (roundsUp digits frac).toNat
  let decimals := Nat.toDigits 10 (scaled % power)
  let decimals := trimZeros (List.replicate (count - decimals.length) '0' ++ decimals)
  (if x.raw < 0 then "-" else "") ++ toString (scaled / power) ++
    (if decimals.isEmpty then "" else "." ++ String.ofList decimals)

/-- `n / d` to the nearest integer; a half goes to the even neighbour. -/
def roundDiv (n d : Nat) : Nat :=
  let q := n / d
  let r := 2 * (n % d)
  if d < r || r == d && q % 2 == 1 then q + 1 else q

/-- The nearest raw value to `mantissa * 10 ^ exponent`. Exponents at which it is out of range
or nearest to zero whatever the digits are settled without computing the power. -/
def ofDecimal? (negative : Bool) (mantissa : Nat) (exponent : Int) : Option Fixed :=
  let signed (raw : Nat) : Option Fixed := ofRaw? (if negative then -raw else raw)
  if mantissa = 0 then
    some 0
  else if 24 ≤ exponent then
    none
  else if 0 ≤ exponent then
    signed (mantissa * Nat.pow 10 exponent.toNat * scale.toNat)
  else if (Nat.log2 mantissa : Int) + 64 < -exponent * 3 then
    some 0
  else
    signed (roundDiv (mantissa * scale.toNat) (Nat.pow 10 exponent.natAbs))

def takeSign : List Char → Bool × List Char
  | '-' :: rest => (true, rest)
  | '+' :: rest => (false, rest)
  | rest => (false, rest)

/-- The exponent part: nothing, or a mark and a signed number that fits 32 bits. -/
def readExponent? : List Char → Option Int
  | [] => some 0
  | mark :: rest =>
    let (negative, digits) := takeSign rest
    let n : Int := Digits.value 10 digits
    let n := if negative then -n else n
    if (mark == 'e' || mark == 'E' || mark == '@') && !digits.isEmpty && digits.all Char.isDigit &&
        -2147483648 ≤ n && n < 2147483648 then
      some n
    else
      none

/-- Reads a decimal number: sign, digits with at most one point, exponent. -/
def ofText? (s : String) : Option Fixed := do
  let (negative, rest) := takeSign s.toList
  let whole := rest.takeWhile Char.isDigit
  let rest := rest.dropWhile Char.isDigit
  let (decimals, rest) := match rest with
    | '.' :: rest => (rest.takeWhile Char.isDigit, rest.dropWhile Char.isDigit)
    | rest => ([], rest)
  if whole.isEmpty && decimals.isEmpty then none
  let exponent ← readExponent? rest
  ofDecimal? negative (Digits.value 10 (whole ++ decimals)) (exponent - decimals.length)

end Solvency.Fixed
