import Solvency.Registry.Ingest

/-! A ledger in memory. What is written at a slot reaches every subscription of its
address at once, and a heartbeat for a slot follows everything written at it. -/

namespace Solvency

inductive Delivery (α : Type) where
  | item (value : α)
  | failure (error : Failure)
  | ended

/-- A subscription as its reader holds it: what has not been read yet, and whether the
ledger still sends to it. -/
structure Inbox (α : Type) where
  queue : List (Delivery α) := []
  isFed : Bool := true

namespace Inbox

variable {α : Type}

def push (inbox : Inbox α) (d : Delivery α) : Inbox α := { inbox with queue := inbox.queue ++ [d] }

def send (inbox : Inbox α) (value : α) : Inbox α :=
  if inbox.isFed then inbox.push (.item value) else inbox

/-- The last thing the ledger sends is that the connection is lost. -/
def cut (inbox : Inbox α) : Inbox α :=
  if inbox.isFed then { inbox.push (.failure (.disconnected .dropped)) with isFed := false }
  else inbox

end Inbox

structure Ledger where
  slot : Slot := 1
  accounts : Table Address RawAccount := {}
  accountFeeds : Table Nat (Address × Inbox RawAccount) := {}
  slotFeeds : Table Nat (Inbox Slot) := {}
  nextFeed : Nat := 0
  reachable : Bool := true
  /-- Whether slot subscriptions are offered at all. -/
  heartbeats : Bool := true

namespace Ledger

def mapAccountFeeds (l : Ledger) (f : Address → Inbox RawAccount → Inbox RawAccount) : Ledger :=
  { l with accountFeeds := ⟨l.accountFeeds.entries.map fun (id, address, inbox) =>
      (id, address, f address inbox)⟩ }

def mapSlotFeeds (l : Ledger) (f : Inbox Slot → Inbox Slot) : Ledger :=
  { l with slotFeeds := ⟨l.slotFeeds.entries.map fun (id, inbox) => (id, f inbox)⟩ }

def publish (l : Ledger) (raw : RawAccount) : Ledger :=
  { l with accounts := l.accounts.insert raw.address raw }.mapAccountFeeds fun address inbox =>
    if address = raw.address then inbox.send raw else inbox

def setAccount (l : Ledger) (address : Address) (entity : Entity) : Ledger :=
  l.publish (.ofEntity address l.slot entity)

def setRaw (l : Ledger) (address : Address) (tag : UInt8) (data : Bytes) : Ledger :=
  l.publish ⟨address, l.slot, tag, data⟩

def removeAccount (l : Ledger) (address : Address) : Ledger :=
  { l with accounts := l.accounts.erase address }

/-- Confirms the current slot to the slot subscriptions and goes on to the next. -/
def advanceSlot (l : Ledger) : Ledger :=
  { l.mapSlotFeeds (·.send l.slot) with slot := l.slot + 1 }

def disconnect (l : Ledger) : Ledger :=
  (l.mapAccountFeeds fun _ => Inbox.cut).mapSlotFeeds Inbox.cut

/-- While a ledger cannot be reached, every request fails. -/
def setReachable (l : Ledger) (reachable : Bool) : Ledger := { l with reachable }

def ensureReachable (l : Ledger) : Except Failure Unit :=
  if l.reachable then .ok () else .error (.disconnected .unreachable)

def getAccount (l : Ledger) (address : Address) : Except Failure RawAccount := do
  l.ensureReachable
  match l.accounts.find? address with
  | some raw => return raw
  | none => throw (.accountNotFound address)

def subscribe (l : Ledger) (address : Address) : Except Failure (Nat × Ledger) := do
  l.ensureReachable
  return (l.nextFeed, { l with
    accountFeeds := l.accountFeeds.insert l.nextFeed (address, {})
    nextFeed := l.nextFeed + 1 })

def subscribeSlots (l : Ledger) : Except Failure (Option Nat × Ledger) := do
  l.ensureReachable
  if l.heartbeats then
    return (some l.nextFeed, { l with
      slotFeeds := l.slotFeeds.insert l.nextFeed {}
      nextFeed := l.nextFeed + 1 })
  else
    return (none, l)

def dropFeed (l : Ledger) (id : Nat) : Ledger :=
  { l with accountFeeds := l.accountFeeds.erase id, slotFeeds := l.slotFeeds.erase id }

def nextAccount? (l : Ledger) (id : Nat) : Option (Delivery RawAccount × Ledger) := do
  let (address, inbox) ← l.accountFeeds.find? id
  match inbox.queue with
  | [] => none
  | d :: queue =>
    some (d, { l with accountFeeds := l.accountFeeds.insert id (address, { inbox with queue }) })

def nextSlot? (l : Ledger) (id : Nat) : Option (Delivery Slot × Ledger) := do
  let inbox ← l.slotFeeds.find? id
  match inbox.queue with
  | [] => none
  | d :: queue => some (d, { l with slotFeeds := l.slotFeeds.insert id { inbox with queue } })

/-- Open subscriptions of an address that the ledger still sends to. -/
def subscriberCount (l : Ledger) (address : Address) : Nat :=
  l.accountFeeds.values.countP fun (a, inbox) => a == address && inbox.isFed

def totalSubscribers (l : Ledger) : Nat :=
  l.accountFeeds.values.countP fun (_, inbox) => inbox.isFed

end Ledger

end Solvency
