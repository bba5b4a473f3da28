import Solvency.Ledger.Basic

/-! The way to a ledger. Requests can be made to fail before they get there, and
anything can be put into a subscription that is being read. -/

namespace Solvency

structure Transport where
  ledger : Ledger := {}
  getFaults : Table Address Failure := {}
  subscribeFaults : Table Address Failure := {}
  slotsFault : Option Failure := none
  /-- Whether slot subscriptions are passed on to the ledger. -/
  passesSlots : Bool := true
  latestFeed : Table Address Nat := {}
  latestSlotFeed : Option Nat := none

namespace Transport

def getAccount (t : Transport) (address : Address) : Except Failure RawAccount :=
  match t.getFaults.find? address with
  | some error => .error error
  | none => t.ledger.getAccount address

def subscribe (t : Transport) (address : Address) : Except Failure (Nat × Transport) :=
  match t.subscribeFaults.find? address with
  | some error => .error error
  | none => do
    let (id, ledger) ← t.ledger.subscribe address
    return (id, { t with ledger, latestFeed := t.latestFeed.insert address id })

def subscribeSlots (t : Transport) : Except Failure (Option Nat × Transport) :=
  if t.passesSlots then
    match t.slotsFault with
    | some error => .error error
    | none => do
      let (id, ledger) ← t.ledger.subscribeSlots
      return (id, { t with ledger, latestSlotFeed := id.or t.latestSlotFeed })
  else
    .ok (none, t)

def dropFeed (t : Transport) (id : Nat) : Transport := { t with ledger := t.ledger.dropFeed id }

/-- Puts a delivery into the newest subscription of an address, if that is still held. -/
def inject (t : Transport) (address : Address) (d : Delivery RawAccount) : Bool × Transport :=
  match t.latestFeed.find? address with
  | none => (false, t)
  | some id =>
    let feeds := t.ledger.accountFeeds
    (feeds.contains id, { t with ledger := { t.ledger with
      accountFeeds := feeds.modify id fun (a, inbox) => (a, inbox.push d) } })

def injectSlot (t : Transport) (d : Delivery Slot) : Bool × Transport :=
  match t.latestSlotFeed with
  | none => (false, t)
  | some id =>
    let feeds := t.ledger.slotFeeds
    (feeds.contains id, { t with ledger := { t.ledger with
      slotFeeds := feeds.modify id (·.push d) } })

end Transport

end Solvency
