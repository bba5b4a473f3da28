import Solvency.Account.Header

/-! A perpetual market: lot sizes and cumulative funding. -/

namespace Solvency

structure LiquidityMiningInfo where
  rate : Fixed
  maxDepthBps : Fixed
  periodStart : UInt64
  targetPeriodLength : UInt64
  mngoLeft : UInt64
  mngoPerPeriod : UInt64
deriving DecidableEq, Inhabited

structure PerpMarket where
  version : UInt8
  group : Address
  bids : Address
  asks : Address
  eventQueue : Address
  quoteLotSize : Int64
  baseLotSize : Int64
  /-- Funding a long has paid so far, for each base lot. -/
  longFunding : Fixed
  /-- Funding a short has received so far, for each base lot. -/
  shortFunding : Fixed
  openInterest : Int64
  lastUpdated : UInt64
  seqNum : UInt64
  feesAccrued : Fixed
  liquidityMiningInfo : LiquidityMiningInfo
  mngoVault : Address
deriving DecidableEq, Inhabited

open Codec

def LiquidityMiningInfo.codec : Codec LiquidityMiningInfo :=
  (fixed.pair <| fixed.pair <| u64.pair <| u64.pair <| u64.pair u64).iso
    (fun (rate, depth, start, length, left, perPeriod) =>
      ⟨rate, depth, start, length, left, perPeriod⟩)
    (fun i => (i.rate, i.maxDepthBps, i.periodStart, i.targetPeriodLength, i.mngoLeft,
      i.mngoPerPeriod))

def PerpMarket.codec : Codec PerpMarket :=
  ((header .perpMarket [0]).pair <| address.pair <| address.pair <| address.pair <|
      address.pair <| i64.pair <| i64.pair <| fixed.pair <| fixed.pair <| i64.pair <| u64.pair <|
      u64.pair <| fixed.pair <| LiquidityMiningInfo.codec.pair address).iso
    (fun (version, group, bids, asks, eventQueue, quoteLotSize, baseLotSize, longFunding,
        shortFunding, openInterest, lastUpdated, seqNum, feesAccrued, liquidityMiningInfo,
        mngoVault) =>
      ⟨version, group, bids, asks, eventQueue, quoteLotSize, baseLotSize, longFunding,
        shortFunding, openInterest, lastUpdated, seqNum, feesAccrued, liquidityMiningInfo,
        mngoVault⟩)
    (fun m => (m.version, m.group, m.bids, m.asks, m.eventQueue, m.quoteLotSize, m.baseLotSize,
      m.longFunding, m.shortFunding, m.openInterest, m.lastUpdated, m.seqNum, m.feesAccrued,
      m.liquidityMiningInfo, m.mngoVault))

end Solvency
