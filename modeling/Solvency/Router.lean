import Solvency.Ledger.Transport
import Solvency.Settings.Basic

/-! The router holds every subscription and feeds the registry from them. Losing the
connection makes everything observed so far stale; it is observed again after reconnecting. -/

namespace Solvency

namespace Router

inductive Command where
  | track (address : Address)
  | untrack (address : Address)
deriving DecidableEq

end Router

structure Router where
  settings : TransportSettings
  state : ConnectionState := .disconnected
  announcements : Nat := 0
  tally : Tally := {}
  commands : List Router.Command := []
  streams : Table Address Nat := {}
  slots : Option Nat := none
  tracked : List Address := []
  reconnectAt : Option Nat := none
  attempts : Nat := 0
  running : Bool := true

def Router.announce (r : Router) (state : ConnectionState) : Router :=
  { r with state, announcements := r.announcements + 1 }

/-- The ledger, the registry, the router between them and the time in milliseconds. -/
structure Link where
  transport : Transport
  registry : Registry
  router : Router
  now : Nat := 0

namespace Link

def announce (s : Link) (state : ConnectionState) : Link :=
  { s with router := s.router.announce state }

def retryTime (s : Link) : Nat := s.now + s.router.settings.reconnectDelayMs

def ingest (s : Link) (raw : RawAccount) : Link :=
  let (outcome, registry) := s.registry.ingest raw
  { s with registry, router := { s.router with tally := s.router.tally.count outcome } }

def dropStreams (s : Link) : Link :=
  let held := s.router.streams.values ++ s.router.slots.toList
  { s with
    transport := held.foldl Transport.dropFeed s.transport
    router := { s.router with streams := {}, slots := none } }

def invalidate (s : Link) : Link := { s with registry := s.registry.invalidateAll }

/-- A lost connection; when it is already known to be lost, nothing changes. -/
def onDisconnect (s : Link) : Link :=
  if s.router.state = .connected then
    let s := s.dropStreams.invalidate.announce .disconnected
    { s with router := { s.router with
      tally := { s.router.tally with disconnects := s.router.tally.disconnects + 1 }
      attempts := 0
      reconnectAt := some s.retryTime } }
  else
    s

def fetch (s : Link) (address : Address) : Except Failure Unit × Link :=
  match s.transport.getAccount address with
  | .ok raw => (.ok (), s.ingest raw)
  | .error error => (.error error, s)

/-- Subscribes and then fetches, so that no change falls between the two. -/
def openStream (s : Link) (address : Address) : Except Failure Unit × Link :=
  match s.transport.subscribe address with
  | .error error => (.error error, s)
  | .ok (id, transport) =>
    { s with
      transport
      registry := s.registry.setLive address true
      router := { s.router with streams := s.router.streams.insert address id } }.fetch address

/-- Tracks an address. Until there is a connection it is only remembered. -/
def track (s : Link) (address : Address) : Except Failure Unit × Link :=
  let s := { s with router := { s.router with tracked := s.router.tracked.insert address } }
  if s.router.state = .connected then
    let (result, s) :=
      if s.router.streams.contains address then
        if (s.registry.get? address).isSome then (.ok (), s) else s.fetch address
      else
        s.openStream address
    match result with
    | .error error => (.error error, if error.isDisconnect then s.onDisconnect else s)
    | .ok () => (.ok (), s)
  else
    (.ok (), s)

def untrack (s : Link) (address : Address) : Link :=
  if s.router.tracked.contains address then
    { s with
      transport := (s.router.streams.find? address).elim s.transport s.transport.dropFeed
      registry := (s.registry.remove address).2
      router := { s.router with
        tracked := s.router.tracked.erase address
        streams := s.router.streams.erase address } }
  else
    s

/-- Opens a stream for each address. One that is not on the ledger yet is no failure. -/
def openAll (s : Link) : List Address → Except Failure Unit × Link
  | [] => (.ok (), s)
  | address :: rest =>
    match s.openStream address with
    | (.ok (), s) => s.openAll rest
    | (.error (.accountNotFound _), s) => s.openAll rest
    | (.error error, s) => (.error error, s)

def connect (s : Link) : Except Failure Unit × Link :=
  match s.transport.subscribeSlots with
  | .error error => (.error error, s)
  | .ok (slots, transport) =>
    { s with transport, router := { s.router with slots } }.openAll s.router.tracked

/-- One attempt to connect and to observe everything again. The last one that is allowed
leaves the connection failed. -/
def reconnect (s : Link) : Link :=
  let s := { s with router := { s.router with
    reconnectAt := none, attempts := s.router.attempts + 1 } }.announce .resyncing
  match s.connect with
  | (.ok (), s) => { s with router := { s.router with attempts := 0 } }.announce .connected
  | (.error _, s) =>
    let s := s.dropStreams.invalidate
    if s.router.settings.maxReconnectAttempts ≤ s.router.attempts then
      s.announce .failed
    else
      let s := s.announce .disconnected
      { s with router := { s.router with reconnectAt := some s.retryTime } }

/-- Makes everything stale and observes it again. -/
def resync (s : Link) : Except Failure Unit × Link :=
  let s := s.dropStreams.invalidate
  let s := { s with router := { s.router with attempts := 0 } }.reconnect
  (if s.router.state = .connected then .ok ()
    else .error (.disconnected (.resyncLeft s.router.state)), s)

def onAccount (s : Link) : Delivery RawAccount → Link
  | .item raw => s.ingest raw
  | .failure error => if error.isDisconnect then s.onDisconnect else s
  | .ended => s.onDisconnect

def onSlot (s : Link) : Delivery Slot → Link
  | .item slot => { s with
      registry := s.registry.confirmSlot slot
      router := { s.router with tally := { s.router.tally with
        heartbeats := s.router.tally.heartbeats + 1 } } }
  | .failure error => if error.isDisconnect then s.onDisconnect else s
  | .ended => s.onDisconnect

def perform (s : Link) : Router.Command → Link
  | .track address => (s.track address).2
  | .untrack address => s.untrack address

def commandStep? (s : Link) : Option Link :=
  match s.router.commands with
  | [] => none
  | command :: commands =>
    some ({ s with router := { s.router with commands } }.perform command)

def accountStep? (s : Link) (id : Nat) : Option Link := do
  let (d, ledger) ← s.transport.ledger.nextAccount? id
  return { s with transport := { s.transport with ledger } }.onAccount d

def slotStep? (s : Link) : Option Link := do
  let id ← s.router.slots
  let (d, ledger) ← s.transport.ledger.nextSlot? id
  return { s with transport := { s.transport with ledger } }.onSlot d

def timerStep? (s : Link) : Option Link := do
  if (← s.router.reconnectAt) ≤ s.now then some s.reconnect else none

/-- What a running router does next: commands, then accounts, then slots, then the timer. -/
def step? (s : Link) : Option Link :=
  if s.router.running then
    s.commandStep?.or <| (s.router.streams.values.findSome? s.accountStep?).or <|
      s.slotStep?.or s.timerStep?
  else
    none

def send (s : Link) (command : Router.Command) : Except Failure Unit × Link :=
  if s.router.running then
    (.ok (), { s with router := { s.router with commands := s.router.commands ++ [command] } })
  else
    (.error (.closed .routerCommands), s)

/-- Has a running router answer at once. -/
def request (s : Link) (act : Link → Except Failure Unit × Link) : Except Failure Unit × Link :=
  if s.router.running then act s else (.error (.closed .routerCommands), s)

def nextDeadline? (s : Link) : Option Nat :=
  if s.router.running then s.router.reconnectAt else none

def stop (s : Link) : Link :=
  let s := s.dropStreams
  { s with router := { s.router with running := false } }

def start (transport : Transport) (settings : TransportSettings) (eventBuffer now : Nat) : Link :=
  reconnect { transport, registry := .ofBuffer eventBuffer, router := { settings }, now }

def unavailable (s : Link) (address : Address) : Failure :=
  if s.router.state = .connected then .accountNotFound address
  else .disconnected (.inState s.router.state)

end Link

end Solvency
