import Solvency.Account.Dex

/-! The open orders of one trader in one spot market. Occupancy and side are
single bits of two 128-bit words, ids are arrays; here the occupied slots are a list. -/

namespace Solvency

abbrev spotOrderSlots : Nat := 128

structure SpotOrder where
  slot : UInt8
  orderId : BitVec 128
  clientId : UInt64
  isBid : Bool
deriving DecidableEq, Inhabited

structure OpenOrders where
  accountFlags : AccountFlags
  market : Address
  owner : Address
  baseTokenFree : UInt64
  baseTokenTotal : UInt64
  quoteTokenFree : UInt64
  quoteTokenTotal : UInt64
  orders : List SpotOrder
  referrerRebatesAccrued : UInt64
deriving DecidableEq, Inhabited

open Codec

namespace SpotOrder

def priceLots (order : SpotOrder) : UInt64 := UInt64.ofNat (order.orderId >>> 64).toNat

/-- The order that holds a slot: of several listed for it, the last. -/
def at? (orders : List SpotOrder) (slot : Nat) : Option SpotOrder :=
  orders.reverse.find? fun order => order.slot.toNat == slot

abbrev Columns : Type :=
  BitVec spotOrderSlots × BitVec spotOrderSlots × Vector (BitVec 128) spotOrderSlots ×
    Vector UInt64 spotOrderSlots

/-- The word whose bit `i` is set exactly when `bit i`. -/
def bitWord (bit : Nat → Bool) : BitVec spotOrderSlots :=
  BitVec.ofNat _ <| (List.range spotOrderSlots).foldr (fun i n => n + (bit i).toNat <<< i) 0

/-- A slot is a bid when any order listed for it is. -/
def columns (orders : List SpotOrder) : Columns :=
  let slots := Vector.ofFn fun slot : Fin spotOrderSlots => at? orders slot
  (bitWord fun slot => orders.all fun order => order.slot.toNat != slot,
    bitWord fun slot => orders.any fun order => order.slot.toNat == slot && order.isBid,
    slots.map (·.elim 0 SpotOrder.orderId), slots.map (·.elim 0 SpotOrder.clientId))

def ofColumns (columns : Columns) (slot : Fin spotOrderSlots) : Option SpotOrder :=
  let (free, bids, ids, clients) := columns
  if free.getLsb slot then
    none
  else
    some {
      slot := UInt8.ofNat slot
      orderId := ids[slot]
      clientId := clients[slot]
      isBid := bids.getLsb slot }

def codec : Codec (List SpotOrder) :=
  (u128.pair <| u128.pair <| (array spotOrderSlots u128).pair (array spotOrderSlots u64)).iso
    (fun columns => (List.finRange spotOrderSlots).filterMap (ofColumns columns)) columns

end SpotOrder

namespace OpenOrders

def codec : Codec OpenOrders :=
  let balances := (u64.pair <| u64.pair <| u64.pair u64).check
    (fun (baseFree, baseTotal, quoteFree, quoteTotal) =>
      baseFree ≤ baseTotal && quoteFree ≤ quoteTotal)
    (fun _ => .freeExceedsTotal)
  ((Dex.flags (AccountFlags.initialized ||| AccountFlags.openOrders)).pair <| address.pair <|
      address.pair <| balances.pair <| SpotOrder.codec.pair <| u64.before Dex.tail).iso
    (fun (accountFlags, market, owner, (baseFree, baseTotal, quoteFree, quoteTotal), orders,
        referrerRebatesAccrued) =>
      ⟨accountFlags, market, owner, baseFree, baseTotal, quoteFree, quoteTotal, orders,
        referrerRebatesAccrued⟩)
    (fun o => (o.accountFlags, o.market, o.owner,
      (o.baseTokenFree, o.baseTokenTotal, o.quoteTokenFree, o.quoteTokenTotal), o.orders,
      o.referrerRebatesAccrued))

/-- Base tokens that resting asks hold. -/
def baseLocked (o : OpenOrders) : UInt64 :=
  if o.baseTokenFree ≤ o.baseTokenTotal then o.baseTokenTotal - o.baseTokenFree else 0

/-- Quote tokens that resting bids hold. -/
def quoteLocked (o : OpenOrders) : UInt64 :=
  if o.quoteTokenFree ≤ o.quoteTokenTotal then o.quoteTokenTotal - o.quoteTokenFree else 0

end OpenOrders

end Solvency
