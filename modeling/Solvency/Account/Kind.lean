/-! The seven kinds of account, with the tag that travels beside a payload and
the exact length of the payload. -/

namespace Solvency

inductive AccountKind where
  | group
  | marginAccount
  | rootBank
  | perpMarket
  | openOrders
  | spotMarket
  | oraclePrice
deriving DecidableEq, Repr, Inhabited

namespace AccountKind

def all : List AccountKind :=
  [group, marginAccount, rootBank, perpMarket, openOrders, spotMarket, oraclePrice]

def tag : AccountKind → UInt8
  | group => 0
  | marginAccount => 1
  | rootBank => 2
  | perpMarket => 4
  | openOrders => 32
  | spotMarket => 33
  | oraclePrice => 48

def ofTag? (tag : UInt8) : Option AccountKind :=
  all.find? fun kind => kind.tag == tag

def size : AccountKind → Nat
  | group => 6032
  | marginAccount => 4296
  | rootBank => 424
  | perpMarket => 320
  | openOrders => 3228
  | spotMarket => 388
  | oraclePrice => 3312

def name : AccountKind → String
  | group => "group"
  | marginAccount => "margin account"
  | rootBank => "root bank"
  | perpMarket => "perp market"
  | openOrders => "open orders"
  | spotMarket => "spot market"
  | oraclePrice => "oracle price"

theorem ofTag?_tag (kind : AccountKind) : ofTag? kind.tag = some kind := by
  cases kind <;> rfl

end AccountKind

/-- What the header of a protocol-owned account may say it is. -/
inductive DataType where
  | group
  | marginAccount
  | rootBank
  | nodeBank
  | perpMarket
  | bids
  | asks
  | cache
  | eventQueue
  | advancedOrders
deriving DecidableEq, Repr

namespace DataType

def all : List DataType :=
  [group, marginAccount, rootBank, nodeBank, perpMarket, bids, asks, cache, eventQueue,
    advancedOrders]

def tag : DataType → UInt8
  | group => 0
  | marginAccount => 1
  | rootBank => 2
  | nodeBank => 3
  | perpMarket => 4
  | bids => 5
  | asks => 6
  | cache => 7
  | eventQueue => 8
  | advancedOrders => 9

def name : DataType → String
  | group => "Group"
  | marginAccount => "MarginAccount"
  | rootBank => "RootBank"
  | nodeBank => "NodeBank"
  | perpMarket => "PerpMarket"
  | bids => "Bids"
  | asks => "Asks"
  | cache => "Cache"
  | eventQueue => "EventQueue"
  | advancedOrders => "AdvancedOrders"

end DataType

end Solvency
