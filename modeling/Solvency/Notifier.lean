import Solvency.Channel.Latest
import Solvency.Risk.Snapshot
import Solvency.Table

/-! Delivery of snapshots to watchers. An address is given a channel when it is first watched,
and every stream of it reads from that channel; closing the last one closes the channel and
releases the address. -/

namespace Solvency

namespace Notifier

/-- A reader of the channel that its address had when it was opened. -/
structure Stream where
  address : Address
  channel : Nat
  seen : Option Nat := none
deriving DecidableEq

end Notifier

structure Notifier where
  /-- The channel that snapshots of an address are sent to. -/
  senders : Table Address Nat := {}
  channels : Table Nat (Latest Snapshot) := {}
  nextChannel : Nat := 0
  streams : Table Nat Notifier.Stream := {}
  nextStream : Nat := 0
  /-- Addresses whose last stream was closed, oldest first. -/
  released : List Address := []

namespace Notifier

def receiverCount (n : Notifier) (channel : Nat) : Nat :=
  n.streams.values.countP (·.channel == channel)

def watcherCount (n : Notifier) (address : Address) : Nat :=
  (n.senders.find? address).elim 0 n.receiverCount

def isWatched (n : Notifier) (address : Address) : Bool :=
  (n.senders.find? address).any (0 < n.receiverCount ·)

def watched (n : Notifier) : List Address :=
  (n.senders.entries.filter fun (_, channel) => 0 < n.receiverCount channel).map (·.1)

def latest? (n : Notifier) (address : Address) : Option Snapshot := do
  (← n.channels.find? (← n.senders.find? address)).value

/-- The channel of an address, a new one where there is none. -/
def channelOf (n : Notifier) (address : Address) : Nat × Notifier :=
  match n.senders.find? address with
  | some channel => (channel, n)
  | none => (n.nextChannel, { n with
      senders := n.senders.insert address n.nextChannel
      channels := n.channels.insert n.nextChannel {}
      nextChannel := n.nextChannel + 1 })

def subscribe (n : Notifier) (address : Address) : Nat × Notifier :=
  let (channel, n) := n.channelOf address
  (n.nextStream, { n with
    streams := n.streams.insert n.nextStream ⟨address, channel, none⟩
    nextStream := n.nextStream + 1 })

/-- Changes what the channel of an address holds, if there is one. -/
def alter (n : Notifier) (address : Address) (f : Latest Snapshot → Latest Snapshot) : Notifier :=
  match n.senders.find? address with
  | none => n
  | some channel => { n with channels := n.channels.modify channel f }

/-- One that says the same as the one held is not sent, and the older one stays. -/
def offer (snapshot : Snapshot) (channel : Latest Snapshot) : Latest Snapshot :=
  if channel.value.any (·.sameState snapshot) then channel else channel.send snapshot

/-- Offers a snapshot, and says whether anyone watches its address. -/
def publish (n : Notifier) (address : Address) (snapshot : Snapshot) : Bool × Notifier :=
  (n.isWatched address, n.alter address (offer snapshot))

def withdraw (n : Notifier) (address : Address) : Notifier := n.alter address Latest.clear

/-- Takes every held snapshot away and wakes nobody. -/
def invalidate (n : Notifier) : Notifier :=
  { n with channels := n.senders.values.foldl (fun t channel => t.modify channel .clear) n.channels }

def poll (n : Notifier) (id : Nat) : Poll Snapshot × Notifier :=
  match n.streams.find? id with
  | none => (.ended, n)
  | some stream =>
    match n.channels.find? stream.channel with
    | none => (.ended, n)
    | some channel =>
      let (found, seen) := channel.poll stream.seen
      (found, { n with streams := n.streams.modify id ({ · with seen }) })

/-- Closes the channel of an address that nobody reads from any more. -/
def release (n : Notifier) (address : Address) : Notifier :=
  match n.senders.find? address with
  | none => n
  | some channel =>
    if n.receiverCount channel = 0 then
      { n with
        senders := n.senders.erase address
        channels := n.channels.modify channel .close
        released := n.released ++ [address] }
    else
      n

/-- The stream is gone before its channel is looked at. -/
def drop (n : Notifier) (id : Nat) : Notifier :=
  match n.streams.find? id with
  | none => n
  | some stream => { n with streams := n.streams.erase id }.release stream.address

end Notifier

end Solvency
