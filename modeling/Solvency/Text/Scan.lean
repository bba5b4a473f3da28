/-! Reading from the front of a text. A reader finds a value and leaves the rest, or fails. -/

namespace Solvency

abbrev Scan := StateT (List Char) Option

namespace Scan

variable {α β : Type}

def one (p : Char → Bool) : Scan Char
  | [] => none
  | c :: rest => if p c then some (c, rest) else none

def char (c : Char) : Scan Unit := discard (one (· == c))

def literal (s : String) : Scan Unit := s.toList.forM char

def span (p : Char → Bool) : Scan (List Char) := fun s => some (s.takeWhile p, s.dropWhile p)

def atEnd : Scan Unit := fun s => if s.isEmpty then some ((), s) else none

def times (n : Nat) (item : Scan α) : Scan (List α) := (List.replicate n item).mapM id

def upTo (item : Scan α) : (limit : Nat) → Scan (List α)
  | 0 => pure []
  | limit + 1 => (do
      let first ← item
      return first :: (← upTo item limit)) <|> pure []

/-- As many items as there are. No item is empty, so there are no more than characters. -/
def many (item : Scan α) : Scan (List α) := fun s => upTo item s.length s

/-- Items with a separator between any two. There may be none. -/
def sepBy (item : Scan α) (separator : Scan Unit) : Scan (List α) :=
  (do
    let first ← item
    return first :: (← many (separator *> item))) <|> pure []

def passage (item : Scan α) : Scan String := fun s => do
  let (_, rest) ← item s
  return (String.ofList (s.take (s.length - rest.length)), rest)

end Scan

end Solvency
