import Solvency.Account.Fault
import Solvency.Address
import Solvency.Slot

/-! What can go wrong between the ledger and a view. -/

namespace Solvency

/-- The part an address plays in the valuation of a margin account. -/
inductive Role where
  | marginAccount
  | group
  | rootBank (token : Nat)
  | oracle (market : Nat)
  | openOrders (market : Nat)
  | perpMarket (market : Nat)
deriving DecidableEq, Repr

namespace Role

def kind : Role → AccountKind
  | marginAccount => .marginAccount
  | group => .group
  | rootBank _ => .rootBank
  | oracle _ => .oraclePrice
  | openOrders _ => .openOrders
  | perpMarket _ => .perpMarket

def text : Role → String
  | marginAccount => "margin account"
  | group => "group"
  | rootBank token => s!"root bank #{token}"
  | oracle market => s!"oracle #{market}"
  | openOrders market => s!"open orders #{market}"
  | perpMarket market => s!"perp market #{market}"

end Role

/-- The connection to the ledger. `failed` waits for an explicit resync. -/
inductive ConnectionState where
  | connected
  | disconnected
  | resyncing
  | failed
deriving DecidableEq, Inhabited

def ConnectionState.text : ConnectionState → String
  | connected => "connected"
  | disconnected => "disconnected"
  | resyncing => "resyncing"
  | failed => "failed"

inductive Outage where
  | dropped
  | unreachable
  | accountStreamEnded (address : Address)
  | slotStreamEnded
  | inState (state : ConnectionState)
  | resyncLeft (state : ConnectionState)
  | other (reason : String)
deriving DecidableEq

def Outage.message : Outage → String
  | dropped => "ledger connection dropped"
  | unreachable => "ledger unreachable"
  | accountStreamEnded address => s!"stream for {address.base58} ended"
  | slotStreamEnded => "slot stream ended"
  | inState state => s!"transport {state.text}"
  | resyncLeft state => s!"resync left transport {state.text}"
  | other reason => reason

/-- Channels that refuse once their other end has gone. -/
inductive Channel where
  | routerCommands
  | routerReply
  | schedulerCommands
deriving DecidableEq

def Channel.text : Channel → String
  | routerCommands => "router commands"
  | routerReply => "router acknowledgement"
  | schedulerCommands => "scheduler commands"

inductive Failure where
  | layout (error : LayoutError)
  | missing (address : Address) (role : Role)
  | stale (range : SlotRange) (tolerance : Nat)
  | wrongKind (address : Address) (expected found : AccountKind)
  | disconnected (outage : Outage)
  | accountNotFound (address : Address)
  | transport (reason : String)
  | closed (channel : Channel)
deriving DecidableEq

namespace Failure

def message : Failure → String
  | layout error => s!"Layout error: {error.message}"
  | missing address role => s!"Missing {role.text} dependency: {address.base58}"
  | stale range tolerance =>
    s!"Stale composition: slots {range.text} exceed tolerance of {tolerance}"
  | wrongKind address expected found =>
    s!"Wrong entity type at {address.base58}: expected {expected.name}, found {found.name}"
  | disconnected outage => s!"Transport disconnected: {outage.message}"
  | accountNotFound address => s!"Account not found: {address.base58}"
  | transport reason => s!"Transport error: {reason}"
  | closed channel => s!"Channel closed: {channel.text}"

/-- Only a lost connection makes everything observed so far untrustworthy. -/
def isDisconnect : Failure → Bool
  | disconnected _ => true
  | _ => false

/-- Failures that more data may resolve. -/
def isTransient : Failure → Bool
  | missing _ _ => true
  | stale _ _ => true
  | _ => false

end Failure

end Solvency
