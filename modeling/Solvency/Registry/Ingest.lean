import Solvency.Registry.Basic

/-! Records as the ledger delivers them. One that cannot be decoded is dropped and
counted, and leaves no other trace. -/

namespace Solvency

structure RawAccount where
  address : Address
  slot : Slot
  tag : UInt8
  data : Bytes
deriving DecidableEq

def RawAccount.ofEntity (address : Address) (slot : Slot) (entity : Entity) : RawAccount :=
  ⟨address, slot, entity.tag, entity.encode⟩

inductive RouteOutcome where
  | stored (outcome : PutOutcome)
  | dropped (error : LayoutError)
deriving DecidableEq

/-- How many records came to what. Counters of 64 bits, which start over after the last number,
show the same until that many records have come. -/
structure Tally where
  applied : Nat := 0
  revalidated : Nat := 0
  stale : Nat := 0
  malformed : Nat := 0
  unknown : Nat := 0
  heartbeats : Nat := 0
  disconnects : Nat := 0
deriving DecidableEq

def Tally.count (t : Tally) : RouteOutcome → Tally
  | .stored (.applied _) => { t with applied := t.applied + 1 }
  | .stored .revalidated => { t with revalidated := t.revalidated + 1 }
  | .stored (.stale _) => { t with stale := t.stale + 1 }
  | .dropped (.unknownTag _) => { t with unknown := t.unknown + 1 }
  | .dropped _ => { t with malformed := t.malformed + 1 }

def Registry.ingest (r : Registry) (raw : RawAccount) : RouteOutcome × Registry :=
  match Entity.decode raw.tag raw.data with
  | .error error => (.dropped error, r)
  | .ok entity =>
    let (outcome, r) := r.put raw.address entity raw.slot
    (.stored outcome, r)

end Solvency
