import Solvency.Account.Group

/-! A margin account: the balances, perpetual positions and resting perpetual
orders of one trader. The orders are kept as a list of the occupied slots; in
the payload they are scattered over four arrays of sixty-four. -/

namespace Solvency

abbrev perpOrderSlots : Nat := 64

/-- The market byte of an unoccupied order slot. -/
def freeOrderSlot : UInt8 := 255

structure PerpAccount where
  basePosition : Int64
  quotePosition : Fixed
  longSettledFunding : Fixed
  shortSettledFunding : Fixed
  bidsQuantity : Int64
  asksQuantity : Int64
  takerBase : Int64
  takerQuote : Int64
  mngoAccrued : UInt64
deriving DecidableEq, Inhabited

def PerpAccount.isEmpty (p : PerpAccount) : Bool :=
  p.basePosition == 0 && p.quotePosition == 0 && p.bidsQuantity == 0 && p.asksQuantity == 0 &&
    p.takerBase == 0 && p.takerQuote == 0

inductive Side where
  | bid
  | ask
deriving DecidableEq, Inhabited

def Side.code : Side → UInt8
  | bid => 0
  | ask => 1

def Side.ofCode? : UInt8 → Option Side
  | 0 => some bid
  | 1 => some ask
  | _ => none

structure PerpOrder where
  slot : UInt8
  marketIndex : UInt8
  side : Side
  orderId : Int128
  clientOrderId : UInt64
deriving DecidableEq, Inhabited

structure MarginAccount where
  version : UInt8
  group : Address
  owner : Address
  inMarginBasket : Vector Bool marketSlots
  numInMarginBasket : UInt8
  deposits : Vector Fixed tokenSlots
  borrows : Vector Fixed tokenSlots
  spotOpenOrders : Vector Address marketSlots
  perpAccounts : Vector PerpAccount marketSlots
  perpOrders : List PerpOrder
  msrmAmount : UInt64
  beingLiquidated : Bool
  isBankrupt : Bool
  info : Vector UInt8 32
  advancedOrders : Address
  notUpgradable : Bool
  delegate : Address
deriving DecidableEq, Inhabited

open Codec

def PerpAccount.codec : Codec PerpAccount :=
  (i64.pair <| fixed.pair <| fixed.pair <| fixed.pair <| i64.pair <| i64.pair <| i64.pair <|
      i64.pair u64).iso
    (fun (base, quote, long, short, bids, asks, takerBase, takerQuote, mngo) =>
      ⟨base, quote, long, short, bids, asks, takerBase, takerQuote, mngo⟩)
    (fun p => (p.basePosition, p.quotePosition, p.longSettledFunding, p.shortSettledFunding,
      p.bidsQuantity, p.asksQuantity, p.takerBase, p.takerQuote, p.mngoAccrued))

namespace PerpOrder

/-- The order that holds a slot: of several listed for it, the last. -/
def at? (orders : List PerpOrder) (slot : Nat) : Option PerpOrder :=
  orders.reverse.find? fun order => order.slot.toNat == slot

abbrev Columns : Type :=
  Vector UInt8 perpOrderSlots × Vector UInt8 perpOrderSlots ×
    Vector Int128 perpOrderSlots × Vector UInt64 perpOrderSlots

def columns (orders : List PerpOrder) : Columns :=
  let slots := Vector.ofFn fun slot : Fin perpOrderSlots => at? orders slot
  (slots.map (·.elim freeOrderSlot PerpOrder.marketIndex), slots.map (·.elim 0 (·.side.code)),
    slots.map (·.elim default PerpOrder.orderId), slots.map (·.elim 0 PerpOrder.clientOrderId))

def ofColumns (sidesStart : Nat) (columns : Columns) (slot : Fin perpOrderSlots) :
    Except Fault (Option PerpOrder) :=
  let (markets, sides, ids, clients) := columns
  let market := markets[slot]
  if market = freeOrderSlot then
    .ok none
  else if marketSlots ≤ market.toNat then
    .error (.orderMarket slot market)
  else
    match Side.ofCode? sides[slot] with
    | none => .error (.orderSide slot sides[slot] sidesStart)
    | some side =>
      .ok <| some {
        slot := UInt8.ofNat slot
        marketIndex := market
        side
        orderId := ids[slot]
        clientOrderId := clients[slot] }

def codec : Codec (List PerpOrder) :=
  ((array perpOrderSlots u8).pair <| (array perpOrderSlots u8).pair <|
      (array perpOrderSlots i128).pair (array perpOrderSlots u64)).refine
    (fun start columns =>
      return (← (List.finRange perpOrderSlots).mapM (ofColumns (start + perpOrderSlots) columns))
        |>.reduceOption)
    columns

end PerpOrder

namespace MarginAccount

def codec : Codec MarginAccount :=
  ((header .marginAccount [0, 1]).pair <| address.pair <| address.pair <|
      (array marketSlots bool).pair <| u8.pair <| (array tokenSlots fixed).pair <|
      (array tokenSlots fixed).pair <| (array marketSlots address).pair <|
      (array marketSlots PerpAccount.codec).pair <| PerpOrder.codec.pair <| u64.pair <|
      bool.pair <| bool.pair <| (array 32 u8).pair <| address.pair <| bool.pair <|
      address.before (blank 5)).iso
    (fun (version, group, owner, inMarginBasket, numInMarginBasket, deposits, borrows,
        spotOpenOrders, perpAccounts, perpOrders, msrmAmount, beingLiquidated, isBankrupt, info,
        advancedOrders, notUpgradable, delegate) =>
      ⟨version, group, owner, inMarginBasket, numInMarginBasket, deposits, borrows,
        spotOpenOrders, perpAccounts, perpOrders, msrmAmount, beingLiquidated, isBankrupt, info,
        advancedOrders, notUpgradable, delegate⟩)
    (fun a => (a.version, a.group, a.owner, a.inMarginBasket, a.numInMarginBasket, a.deposits,
      a.borrows, a.spotOpenOrders, a.perpAccounts, a.perpOrders, a.msrmAmount, a.beingLiquidated,
      a.isBankrupt, a.info, a.advancedOrders, a.notUpgradable, a.delegate))

/-- The open orders account of a market that is in the margin basket. -/
def basketOpenOrders? (a : MarginAccount) (i : Nat) : Option Address :=
  if a.inMarginBasket[i]?.getD false then a.spotOpenOrders[i]?.filter (·.isSet) else none

def hasBalance (a : MarginAccount) (i : Nat) : Bool :=
  a.deposits[i]?.any (· != 0) || a.borrows[i]?.any (· != 0)

def perpAccount? (a : MarginAccount) (i : Nat) : Option PerpAccount :=
  a.perpAccounts[i]?.filter (!·.isEmpty)

end MarginAccount

end Solvency
