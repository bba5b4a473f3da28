/-! Ledger slots, and the range of slots over which the parts of a view were observed. -/

namespace Solvency

abbrev Slot := Nat

structure SlotRange where
  min : Slot
  max : Slot
deriving DecidableEq, Inhabited

namespace SlotRange

def ofSlot (slot : Slot) : SlotRange := ⟨slot, slot⟩

def extend (range : SlotRange) (slot : Slot) : SlotRange :=
  ⟨Nat.min range.min slot, Nat.max range.max slot⟩

/-- Zero when the bounds are the wrong way round. -/
def spread (range : SlotRange) : Nat := range.max - range.min

def text (range : SlotRange) : String := s!"{range.min}..={range.max}"

end SlotRange

end Solvency
