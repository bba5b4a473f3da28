import Solvency.Channel.EventLog
import Solvency.Channel.Latest
import Solvency.Table
import Solvency.View.Build

/-! The newest observation of every address. Each entry bears the epoch in which it was
observed; a new epoch makes every entry stale until it is observed again. -/

namespace Solvency

inductive PutOutcome where
  | applied (previous : Option Slot)
  /-- A stale entry was observed again at its own slot. -/
  | revalidated
  /-- Not newer than what is stored. -/
  | stale (stored : Slot)
deriving DecidableEq

def PutOutcome.isObserved : PutOutcome → Bool
  | stale _ => false
  | _ => true

inductive RegistryEvent where
  | updated (address : Address) (slot : Slot)
  | slotConfirmed (slot : Slot)
  | invalidated (epoch : Nat)
deriving DecidableEq

namespace Registry

structure Entry where
  entity : Entity
  slot : Slot
  epoch : Nat
deriving DecidableEq

structure Subscription where
  channel : Nat
  seen : Option Nat := none
deriving DecidableEq

end Registry

structure Registry where
  entries : Table Address Registry.Entry := {}
  watchers : Table Address Nat := {}
  channels : Table Nat (Latest Versioned) := {}
  nextChannel : Nat := 0
  /-- Addresses with a live subscription at the ledger. -/
  live : List Address := []
  epoch : Nat := 0
  confirmedSlot : Slot := 0
  events : EventLog RegistryEvent

namespace Registry

def ofBuffer (buffer : Nat) : Registry := { events := .ofBuffer buffer }

def isFresh (r : Registry) (entry : Entry) : Bool := entry.epoch == r.epoch

/-- Heartbeats vouch for a fresh entry while its address is live. -/
def observedSlot (r : Registry) (address : Address) (entry : Entry) : Slot :=
  if r.isFresh entry && r.live.contains address then max entry.slot r.confirmedSlot else entry.slot

def versioned (r : Registry) (address : Address) (entry : Entry) : Versioned :=
  ⟨entry.entity, entry.slot, r.observedSlot address entry⟩

/-- The entry regardless of its epoch, and whether it is fresh. -/
def peek? (r : Registry) (address : Address) : Option (Versioned × Bool) :=
  (r.entries.find? address).map fun entry => (r.versioned address entry, r.isFresh entry)

/-- The entry if it has been observed in this epoch. -/
def get? (r : Registry) (address : Address) : Option Versioned := do
  let entry ← r.entries.find? address
  if r.isFresh entry then some (r.versioned address entry) else none

/-- A channel never goes back to an older slot than it holds. -/
def notify (r : Registry) (address : Address) : Registry :=
  match r.watchers.find? address, r.get? address with
  | some id, some current =>
    { r with channels := r.channels.modify id fun channel =>
        if channel.value.any (current.slot < ·.slot) then channel else channel.send current }
  | _, _ => r

def emit (r : Registry) (event : RegistryEvent) : Registry :=
  { r with events := r.events.push event }

def outcome (r : Registry) (address : Address) (slot : Slot) : PutOutcome :=
  match r.entries.find? address with
  | none => .applied none
  | some stored =>
    if stored.slot < slot then .applied (some stored.slot)
    else if slot = stored.slot ∧ ¬ r.isFresh stored then .revalidated
    else .stale stored.slot

/-- Stores an observation if it is newer than what is held, or observed again after a gap. -/
def put (r : Registry) (address : Address) (entity : Entity) (slot : Slot) :
    PutOutcome × Registry :=
  let store (entries : Table Address Entry) : Registry :=
    ({ r with entries }.notify address).emit (.updated address slot)
  match r.outcome address slot with
  | .applied previous =>
    (.applied previous, store (r.entries.insert address ⟨entity, slot, r.epoch⟩))
  | .revalidated =>
    (.revalidated, store (r.entries.modify address ({ · with epoch := r.epoch })))
  | .stale stored => (.stale stored, r)

def subscribe (r : Registry) (address : Address) : Subscription × Registry :=
  match r.watchers.find? address with
  | some id => (⟨id, none⟩, r)
  | none =>
    (⟨r.nextChannel, none⟩, { r with
      watchers := r.watchers.insert address r.nextChannel
      channels := r.channels.insert r.nextChannel { value := r.get? address }
      nextChannel := r.nextChannel + 1 })

def poll (r : Registry) (s : Subscription) : Poll Versioned × Subscription :=
  match r.channels.find? s.channel with
  | none => (.ended, s)
  | some channel =>
    let (found, seen) := channel.poll s.seen
    (found, { s with seen })

def unsubscribe (r : Registry) (address : Address) : Registry :=
  match r.watchers.find? address with
  | none => r
  | some id =>
    { r with watchers := r.watchers.erase address, channels := r.channels.modify id Latest.close }

def remove (r : Registry) (address : Address) : Option Versioned × Registry :=
  ((r.entries.find? address).map fun entry => ⟨entry.entity, entry.slot, entry.slot⟩,
    { r.unsubscribe address with
      live := r.live.erase address
      entries := r.entries.erase address })

/-- Starts a new epoch, in which nothing is fresh, live or confirmed. -/
def invalidateAll (r : Registry) : Registry :=
  { r with epoch := r.epoch + 1, confirmedSlot := 0, live := [] }.emit (.invalidated (r.epoch + 1))

/-- Every update up to `slot` has been delivered. -/
def confirmSlot (r : Registry) (slot : Slot) : Registry :=
  if r.confirmedSlot < slot then { r with confirmedSlot := slot }.emit (.slotConfirmed slot) else r

def setLive (r : Registry) (address : Address) (live : Bool) : Registry :=
  { r with live := if live then r.live.insert address else r.live.erase address }

end Registry

end Solvency
