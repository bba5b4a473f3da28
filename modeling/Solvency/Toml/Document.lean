import Solvency.Toml.Moment
import Solvency.Toml.Number
import Solvency.Toml.Quoted
import Solvency.Toml.Value

/-! Documents line by line. A line opens a table by its header or enters a value under a key. -/

namespace Solvency.Toml

open Scan

def blanks : Scan Unit := discard (span isBlank)

def comment : Scan Unit := char '#' *> discard (span isPlain)

def lineEnd : Scan Unit := newline <|> atEnd

/-- Blanks, line breaks and comments, which each end with their line. -/
def gap : Scan Unit :=
  discard (many (discard (one isBlank) <|> newline <|> comment *> newline))

def bareKey : Scan String := do
  let isBare (c : Char) : Bool := c.isAlphanum || c == '_' || c == '-'
  return String.ofList ((← one isBare) :: (← span isBare))

/-- Fewer parts than this make a dotted key, and as many levels are too many for arrays and
inline tables. -/
def nestingLimit : Nat := 80

def dottedKey : Scan (List String) := do
  let path ← sepBy (blanks *> (basicLine <|> literalLine <|> bareKey) <* blanks) (char '.')
  if path.isEmpty || nestingLimit ≤ path.length then failure else return path

/-- A comma may follow the last item. -/
def arrayOf (item : Scan Value) : Scan Value := do
  char '['
  let items ← sepBy (gap *> item <* gap) (char ',')
  if !items.isEmpty then discard (optional (char ','))
  gap
  char ']'
  return .array items

def inlineTableOf (item : Scan Value) : Scan Value := do
  char '\x7b'
  let pairs ← sepBy (do
    let path ← dottedKey
    char '='
    return (path, ← blanks *> item <* blanks)) (char ',')
  blanks
  char '\x7d'
  match Members.ofPairs? pairs with
  | some members => return .table .inline members
  | none => failure

def scalar : Scan Value :=
  .string <$> quotedText <|> .dateTime <$> moment <|> .float <$> float <|> .integer <$> integer <|>
    literal "true" *> pure (.boolean true) <|> literal "false" *> pure (.boolean false)

def value : (levels : Nat) → Scan Value
  | 0 => scalar
  | levels + 1 => scalar <|> arrayOf (value levels) <|> inlineTableOf (value levels)

inductive Statement where
  | table (path : List String)
  | item (path : List String)
  | pair (path : List String) (value : Value)

def statement : Scan Statement :=
  .item <$> (literal "[[" *> dottedKey <* literal "]]") <|>
    .table <$> (char '[' *> dottedKey <* char ']') <|> do
      let path ← dottedKey
      char '='
      blanks
      return .pair path (← value (nestingLimit - 1))

def line : Scan (Option Statement) :=
  some <$> statement <* blanks <* optional comment <* lineEnd <|>
    comment *> lineEnd *> pure none <|> newline *> pure none

/-- A byte order mark may come first. -/
def document : Scan (List Statement) := do
  discard (optional (char '\ufeff'))
  blanks
  let lines ← many (line <* blanks)
  atEnd
  return lines.reduceOption

/-- The root table as far as it has been read, and the path of the table that is open. -/
structure Draft where
  root : Members := {}
  header : List String := []

def Draft.add (d : Draft) : Statement → Option Draft
  | .table path => do return ⟨← d.root.openTable path, path⟩
  | .item path => do return ⟨← d.root.openItem path, path⟩
  | .pair path value => do
    return { d with root := ← d.root.within (·.enter value path) d.header }

def read? (text : String) : Option Members := do
  let (statements, _) ← document text.toList
  return (← statements.foldlM Draft.add {}).root

end Solvency.Toml
