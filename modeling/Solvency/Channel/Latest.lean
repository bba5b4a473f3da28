/-! Delivery of the newest value only. A reader is told apart from the others by the
version it looked at last; several sends between two looks count as one. -/

namespace Solvency

inductive Poll (α : Type) where
  | pending
  | ended
  | item (value : α)
deriving DecidableEq

/-- A held value and the number of times one was sent. -/
structure Latest (α : Type) where
  value : Option α := none
  version : Nat := 0
  isOpen : Bool := true

namespace Latest

variable {α : Type}

def send (c : Latest α) (value : α) : Latest α :=
  { c with value := some value, version := c.version + 1 }

/-- Takes the held value away and wakes nobody. -/
def clear (c : Latest α) : Latest α := { c with value := none }

def close (c : Latest α) : Latest α := { c with isOpen := false }

def idle (c : Latest α) : Poll α := if c.isOpen then .pending else .ended

/-- The first look finds what is held, a later one only what was sent since. -/
def poll (c : Latest α) (seen : Option Nat) : Poll α × Option Nat :=
  if seen = some c.version then
    (c.idle, seen)
  else
    (c.value.elim c.idle .item, some c.version)

end Latest

end Solvency
