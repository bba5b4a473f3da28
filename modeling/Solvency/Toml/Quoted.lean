import Solvency.Text.Digits
import Solvency.Text.Scan

/-! Text between quotes. Double quotes allow escapes, single ones do not, and three of either
allow line breaks. -/

namespace Solvency.Toml

open Scan

/-- No control character but the tab. -/
def isPlain (c : Char) : Bool := c == '\t' || 0x20 ≤ c.toNat && c.toNat != 0x7f

def isBlank (c : Char) : Bool := c == ' ' || c == '\t'

def isHexDigit (c : Char) : Bool := c.isDigit || 'a' ≤ c.toLower && c.toLower ≤ 'f'

/-- A line feed, which a carriage return may precede. -/
def newline : Scan Unit := char '\n' <|> literal "\r\n"

def apostrophe : Char := '\x27'

/-- A character by its number in hexadecimal digits. -/
def byNumber (digits : Nat) : Scan Char := do
  let n := Digits.value 16 (← times digits (one isHexDigit))
  if n.isValidChar then return Char.ofNat n else failure

def escape : Scan Char := do
  char '\\'
  match ← one fun _ => true with
  | 'b' => return '\x08'
  | 't' => return '\t'
  | 'n' => return '\n'
  | 'f' => return '\x0c'
  | 'r' => return '\r'
  | '"' => return '"'
  | '\\' => return '\\'
  | 'u' => byNumber 4
  | 'U' => byNumber 8
  | _ => failure

def basicChar : Scan Char := one (fun c => isPlain c && c != '"' && c != '\\') <|> escape

def literalChar : Scan Char := one fun c => isPlain c && c != apostrophe

def quotedLine (quote : Char) (item : Scan Char) : Scan String := do
  char quote
  let text ← many item
  char quote
  return String.ofList text

def basicLine : Scan String := quotedLine '"' basicChar

def literalLine : Scan String := quotedLine apostrophe literalChar

def quotesAhead (quote : Char) : Scan Nat := fun s => some ((s.takeWhile (· == quote)).length, s)

/-- One or two quotes stand for themselves. -/
def loneQuotes (quote : Char) : Scan (List Char) := do
  let n ← quotesAhead quote
  if n = 1 ∨ n = 2 then times n (one fun _ => true) else failure

/-- Three quotes end the text; up to two before them belong to it. -/
def closingQuotes (quote : Char) : Scan (List Char) := do
  let n ← quotesAhead quote
  if n < 3 then failure else return (← times (min n 5) (one fun _ => true)).drop 3

/-- A backslash at the end of a line takes out all blanks and line breaks up to the next text. -/
def joinedLine : Scan (List Char) := do
  char '\\'
  discard (span isBlank)
  newline
  discard (many (discard (one isBlank) <|> newline))
  return []

/-- A line break right after the opening quotes does not count, and every other one is a line
feed. -/
def quotedLines (quote : Char) (item : Scan (List Char)) : Scan String := do
  discard (times 3 (char quote))
  discard (optional newline)
  let text ← many (item <|> newline *> pure ['\n'] <|> loneQuotes quote)
  return String.ofList (text.flatten ++ (← closingQuotes quote))

def basicLines : Scan String := quotedLines '"' (joinedLine <|> List.singleton <$> basicChar)

def literalLines : Scan String := quotedLines apostrophe (List.singleton <$> literalChar)

def quotedText : Scan String := basicLines <|> basicLine <|> literalLines <|> literalLine

end Solvency.Toml
