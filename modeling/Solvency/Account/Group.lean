import Solvency.Account.Header

/-! The group: tokens, markets, oracles and weights that every margin account shares.
Fifteen markets pair a token with the quote token, which has the last token slot. -/

namespace Solvency

abbrev tokenSlots : Nat := 16

/-- Markets of a group, one for each token but the quote token. -/
abbrev marketSlots : Nat := 15

abbrev quoteIndex : Fin tokenSlots := 15

structure TokenInfo where
  mint : Address
  rootBank : Address
  decimals : UInt8
deriving DecidableEq, Inhabited

structure SpotMarketInfo where
  spotMarket : Address
  maintAssetWeight : Fixed
  initAssetWeight : Fixed
  maintLiabWeight : Fixed
  initLiabWeight : Fixed
  liquidationFee : Fixed
deriving DecidableEq, Inhabited

structure PerpMarketInfo where
  perpMarket : Address
  maintAssetWeight : Fixed
  initAssetWeight : Fixed
  maintLiabWeight : Fixed
  initLiabWeight : Fixed
  liquidationFee : Fixed
  makerFee : Fixed
  takerFee : Fixed
  baseLotSize : Int64
  quoteLotSize : Int64
deriving DecidableEq, Inhabited

structure Group where
  version : UInt8
  numOracles : UInt64
  tokens : Vector TokenInfo tokenSlots
  spotMarkets : Vector SpotMarketInfo marketSlots
  perpMarkets : Vector PerpMarketInfo marketSlots
  oracles : Vector Address marketSlots
  signerNonce : UInt64
  signerKey : Address
  admin : Address
  dexProgramId : Address
  cache : Address
  validInterval : UInt64
  insuranceVault : Address
  srmVault : Address
  msrmVault : Address
  feesVault : Address
  maxAccounts : UInt32
  numAccounts : UInt32
  refSurchargeCentibps : UInt32
  refShareCentibps : UInt32
  refMngoRequired : UInt64
deriving DecidableEq, Inhabited

open Codec

def TokenInfo.codec : Codec TokenInfo :=
  (address.pair <| address.pair <| u8.before (blank 7)).iso
    (fun (mint, rootBank, decimals) => ⟨mint, rootBank, decimals⟩)
    (fun t => (t.mint, t.rootBank, t.decimals))

def SpotMarketInfo.codec : Codec SpotMarketInfo :=
  (address.pair <| fixed.pair <| fixed.pair <| fixed.pair <| fixed.pair fixed).iso
    (fun (market, maintAsset, initAsset, maintLiab, initLiab, fee) =>
      ⟨market, maintAsset, initAsset, maintLiab, initLiab, fee⟩)
    (fun m => (m.spotMarket, m.maintAssetWeight, m.initAssetWeight, m.maintLiabWeight,
      m.initLiabWeight, m.liquidationFee))

def PerpMarketInfo.codec : Codec PerpMarketInfo :=
  (address.pair <| fixed.pair <| fixed.pair <| fixed.pair <| fixed.pair <| fixed.pair <|
      fixed.pair <| fixed.pair <| i64.pair i64).iso
    (fun (market, maintAsset, initAsset, maintLiab, initLiab, fee, maker, taker, base, quote) =>
      ⟨market, maintAsset, initAsset, maintLiab, initLiab, fee, maker, taker, base, quote⟩)
    (fun m => (m.perpMarket, m.maintAssetWeight, m.initAssetWeight, m.maintLiabWeight,
      m.initLiabWeight, m.liquidationFee, m.makerFee, m.takerFee, m.baseLotSize, m.quoteLotSize))

namespace Group

def codec : Codec Group :=
  let oracleCount := u64.check (· ≤ 15) (.oracleCount ·.toNat marketSlots)
  ((header .group [0]).pair <| oracleCount.pair <|
      (array tokenSlots TokenInfo.codec).pair <|
      (array marketSlots SpotMarketInfo.codec).pair <|
      (array marketSlots PerpMarketInfo.codec).pair <| (array marketSlots address).pair <|
      u64.pair <| address.pair <| address.pair <| address.pair <| address.pair <|
      u64.pair <| address.pair <| address.pair <| address.pair <| address.pair <|
      u32.pair <| u32.pair <| u32.pair <| u32.pair <| u64.before (blank 8)).iso
    (fun (version, numOracles, tokens, spotMarkets, perpMarkets, oracles, signerNonce, signerKey,
        admin, dexProgramId, cache, validInterval, insuranceVault, srmVault, msrmVault, feesVault,
        maxAccounts, numAccounts, refSurchargeCentibps, refShareCentibps, refMngoRequired) =>
      ⟨version, numOracles, tokens, spotMarkets, perpMarkets, oracles, signerNonce, signerKey,
        admin, dexProgramId, cache, validInterval, insuranceVault, srmVault, msrmVault, feesVault,
        maxAccounts, numAccounts, refSurchargeCentibps, refShareCentibps, refMngoRequired⟩)
    (fun g => (g.version, g.numOracles, g.tokens, g.spotMarkets, g.perpMarkets, g.oracles,
      g.signerNonce, g.signerKey, g.admin, g.dexProgramId, g.cache, g.validInterval,
      g.insuranceVault, g.srmVault, g.msrmVault, g.feesVault, g.maxAccounts, g.numAccounts,
      g.refSurchargeCentibps, g.refShareCentibps, g.refMngoRequired))

def quoteToken (g : Group) : TokenInfo := g.tokens[quoteIndex]

def token? (g : Group) (i : Nat) : Option TokenInfo :=
  g.tokens[i]?.filter (·.mint.isSet)

def tokenIndex? (g : Group) (mint : Address) : Option Nat :=
  g.tokens.toList.findIdx? fun token => token.mint.isSet && token.mint == mint

/-- The oracle of a market. Entries from `numOracles` on are not live. -/
def oracle? (g : Group) (i : Nat) : Option Address :=
  if i < g.numOracles.toNat then g.oracles[i]?.filter (·.isSet) else none

def spotMarket? (g : Group) (i : Nat) : Option SpotMarketInfo :=
  g.spotMarkets[i]?.filter (·.spotMarket.isSet)

def perpMarket? (g : Group) (i : Nat) : Option PerpMarketInfo :=
  g.perpMarkets[i]?.filter (·.perpMarket.isSet)

end Group

end Solvency
