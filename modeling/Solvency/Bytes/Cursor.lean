import Solvency.Account.Fault

/-! Reading from the front of a payload. A reader keeps its place when a step
fails, so that what follows a failure is still determined. -/

namespace Solvency

abbrev Bytes := List UInt8

/-- A place in a payload: what has been passed is counted, what is left is kept. -/
structure Cursor where
  kind : AccountKind
  offset : Nat
  rest : Bytes

namespace Cursor

def start (kind : AccountKind) (data : Bytes) : Cursor := ⟨kind, 0, data⟩

def remaining (c : Cursor) : Nat := c.rest.length

def advance (c : Cursor) (n : Nat) : Cursor :=
  { c with offset := c.offset + n, rest := c.rest.drop n }

def fault (c : Cursor) (fault : Fault) : LayoutError :=
  .malformed c.kind fault c.offset

end Cursor

abbrev Reader := ExceptT LayoutError (StateM Cursor)

namespace Reader

def runFrom {α : Type} (r : Reader α) (c : Cursor) : Except LayoutError α × Cursor :=
  r.run.run c

def fail {α : Type} (fault : Fault) : Reader α := do
  throw ((← get).fault fault)

def take (n : Nat) : Reader Bytes := do
  let c ← get
  let taken := c.rest.take n
  if taken.length = n then
    set (c.advance n)
    return taken
  else
    fail (.truncated n c.remaining)

/-- Passes over a literal marker; a mismatch is reported where the marker should start. -/
def expect (marker : Bytes) (what : String) : Reader Unit := do
  let start ← get
  let found ← take marker.length
  if found = marker then
    return
  else
    throw (start.fault (.badMarker what))

def finish : Reader Unit := do
  let c ← get
  if c.rest.isEmpty then
    return
  else
    fail (.trailing c.remaining)

end Reader

end Solvency
