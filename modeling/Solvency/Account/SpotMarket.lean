import Solvency.Account.Dex

/-! A spot market of the exchange. -/

namespace Solvency

structure SpotMarket where
  accountFlags : AccountFlags
  ownAddress : Address
  vaultSignerNonce : UInt64
  baseMint : Address
  quoteMint : Address
  baseVault : Address
  baseDepositsTotal : UInt64
  baseFeesAccrued : UInt64
  quoteVault : Address
  quoteDepositsTotal : UInt64
  quoteFeesAccrued : UInt64
  quoteDustThreshold : UInt64
  requestQueue : Address
  eventQueue : Address
  bids : Address
  asks : Address
  baseLotSize : UInt64
  quoteLotSize : UInt64
  feeRateBps : UInt64
  referrerRebatesAccrued : UInt64
deriving DecidableEq, Inhabited

open Codec

def SpotMarket.codec : Codec SpotMarket :=
  ((Dex.flags (AccountFlags.initialized ||| AccountFlags.market)).pair <| address.pair <|
      u64.pair <| address.pair <| address.pair <| address.pair <| u64.pair <| u64.pair <|
      address.pair <| u64.pair <| u64.pair <| u64.pair <| address.pair <| address.pair <|
      address.pair <| address.pair <| u64.pair <| u64.pair <| u64.pair <|
      u64.before Dex.tail).iso
    (fun (accountFlags, ownAddress, vaultSignerNonce, baseMint, quoteMint, baseVault,
        baseDepositsTotal, baseFeesAccrued, quoteVault, quoteDepositsTotal, quoteFeesAccrued,
        quoteDustThreshold, requestQueue, eventQueue, bids, asks, baseLotSize, quoteLotSize,
        feeRateBps, referrerRebatesAccrued) =>
      ⟨accountFlags, ownAddress, vaultSignerNonce, baseMint, quoteMint, baseVault,
        baseDepositsTotal, baseFeesAccrued, quoteVault, quoteDepositsTotal, quoteFeesAccrued,
        quoteDustThreshold, requestQueue, eventQueue, bids, asks, baseLotSize, quoteLotSize,
        feeRateBps, referrerRebatesAccrued⟩)
    (fun m => (m.accountFlags, m.ownAddress, m.vaultSignerNonce, m.baseMint, m.quoteMint,
      m.baseVault, m.baseDepositsTotal, m.baseFeesAccrued, m.quoteVault, m.quoteDepositsTotal,
      m.quoteFeesAccrued, m.quoteDustThreshold, m.requestQueue, m.eventQueue, m.bids, m.asks,
      m.baseLotSize, m.quoteLotSize, m.feeRateBps, m.referrerRebatesAccrued))

end Solvency
