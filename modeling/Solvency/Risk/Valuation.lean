import Solvency.Risk.Snapshot
import Solvency.View.Build

/-! Health and leverage of one view. Amounts are in whole tokens and valued in the
quote token. Resting orders count as if the worse side had filled. -/

namespace Solvency

/-- A calculation that may leave the range of its numbers or lack its inputs. -/
abbrev Valued := Except UndefinedReason

def Valued.ofOption {α : Type} (x : Option α) : Valued α := x.elim (.error .overflow) .ok

namespace Fixed

def add (x y : Fixed) : Valued Fixed := .ofOption (x.add? y)

def sub (x y : Fixed) : Valued Fixed := .ofOption (x.sub? y)

def mul (x y : Fixed) : Valued Fixed := .ofOption (x.mul? y)

def div (x y : Fixed) : Valued Fixed := .ofOption (x.div? y)

def abs (x : Fixed) : Valued Fixed := .ofOption x.abs?

def ofInt (n : Int) : Valued Fixed := .ofOption (ofInt? n)

def toUi (x : Fixed) (decimals : UInt8) : Valued Fixed := .ofOption (x.nativeToUi? decimals.toNat)

end Fixed

structure Weights where
  asset : Fixed
  liab : Fixed

namespace Weights

def unit : Weights := ⟨1, 1⟩

/-- Without a spot market a balance counts for nothing and a debt in full. -/
def spot (info : SpotMarketInfo) (health : HealthType) : Weights :=
  if info.spotMarket.isSet then
    match health with
    | .initial => ⟨info.initAssetWeight, info.initLiabWeight⟩
    | .maintenance => ⟨info.maintAssetWeight, info.maintLiabWeight⟩
  else
    ⟨0, 1⟩

def perp (info : PerpMarketInfo) : HealthType → Weights
  | .initial => ⟨info.initAssetWeight, info.initLiabWeight⟩
  | .maintenance => ⟨info.maintAssetWeight, info.maintLiabWeight⟩

def apply (w : Weights) (value : Fixed) : Valued Fixed :=
  value.mul (if 0 ≤ value then w.asset else w.liab)

end Weights

structure Valuation where
  collateral : Fixed := 0
  liabilities : Fixed := 0
  positions : List Position := []

def Valuation.push (v : Valuation) (kind : PositionKind) (index : Nat) (amount price : Fixed)
    (weights : Weights) : Valued Valuation := do
  let value ← amount.mul price
  let weighted ← weights.apply value
  let positions := v.positions ++ [⟨kind, index, amount, price, value, weighted⟩]
  if 0 ≤ weighted then
    return { v with collateral := ← v.collateral.add weighted, positions }
  else
    return { v with liabilities := ← v.liabilities.sub weighted, positions }

namespace OpenOrders

/-- Base gained and quote released when the side that leaves more base has filled. -/
def exposure (o : OpenOrders) (price : Fixed) (decimals quoteDecimals : UInt8) :
    Valued (Fixed × Fixed) := do
  let base (n : UInt64) : Valued Fixed := do (← Fixed.ofInt n.toNat).toUi decimals
  let quote (n : UInt64) : Valued Fixed := do (← Fixed.ofInt n.toNat).toUi quoteDecimals
  let baseFree ← base o.baseTokenFree
  let baseTotal ← base o.baseTokenTotal
  let baseLocked ← base o.baseLocked
  let quoteFree ← quote o.quoteTokenFree
  let quoteTotal ← quote o.quoteTokenTotal
  let quoteLocked ← quote o.quoteLocked
  let ifAllBids ← (← quoteLocked.div price).add baseTotal
  if baseFree < ifAllBids then
    return (ifAllBids, quoteFree)
  else
    return (baseFree, ← (← baseLocked.mul price).add quoteTotal)

end OpenOrders

namespace PerpAccount

/-- Funding since the position last settled, in native quote. -/
def unsettledFunding (p : PerpAccount) (market : PerpMarket) : Valued Fixed := do
  let position ← Fixed.ofInt p.basePosition.toInt
  if 0 < p.basePosition then
    (← market.longFunding.sub p.longSettledFunding).mul position
  else if p.basePosition < 0 then
    (← market.shortFunding.sub p.shortSettledFunding).mul position
  else
    return 0

/-- Base and quote of the position when the side that leaves more exposure has filled. -/
def exposure (p : PerpAccount) (market : PerpMarket) (info : PerpMarketInfo) (price : Fixed)
    (decimals quoteDecimals : UInt8) : Valued (Fixed × Fixed) := do
  let baseLot ← Fixed.ofInt info.baseLotSize.toInt
  let quoteLot ← Fixed.ofInt info.quoteLotSize.toInt
  let position ← (← Fixed.ofInt (p.basePosition.toInt + p.takerBase.toInt)).mul baseLot
  let bids ← (← Fixed.ofInt p.bidsQuantity.toInt).mul baseLot
  let asks ← (← Fixed.ofInt p.asksQuantity.toInt).mul baseLot
  let ifAllBids ← (← position.add bids).toUi decimals
  let ifAllAsks ← (← position.sub asks).toUi decimals
  let takerQuote ← (← Fixed.ofInt p.takerQuote.toInt).mul quoteLot
  let quoteNative ← (← p.quotePosition.sub (← p.unsettledFunding market)).add takerQuote
  let quote ← quoteNative.toUi quoteDecimals
  if (← ifAllAsks.abs) < (← ifAllBids.abs) then
    let paid ← (← bids.toUi decimals).mul price
    return (ifAllBids, ← quote.sub paid)
  else
    let received ← (← asks.toUi decimals).mul price
    return (ifAllAsks, ← quote.add received)

end PerpAccount

namespace View

/-- The price of a market; an oracle that is absent, not trading or not positive gives none. -/
def price (v : View) (i : Fin marketSlots) : Valued Fixed := do
  match v.oracles.get i with
  | none => throw .nonPositivePrice
  | some oracle =>
    if oracle.value.isTrading then
      let price ← Valued.ofOption oracle.value.uiPrice?
      if 0 < price then return price else throw .nonPositivePrice
    else
      throw .nonPositivePrice

def netBalance (v : View) (i : Fin tokenSlots) (decimals : UInt8) : Valued Fixed := do
  let account := v.account.value
  if account.hasBalance i then
    match v.rootBanks.get i with
    | none => throw .incompleteView
    | some bank =>
      let deposits ← (account.deposits.get i).mul bank.value.depositIndex
      let borrows ← (account.borrows.get i).mul bank.value.borrowIndex
      (← deposits.sub borrows).toUi decimals
  else
    return 0

/-- Adds the lines of one market; quote that its orders and positions hold goes to the pool. -/
def valueMarket (v : View) (health : HealthType) : Valuation × Fixed → Fin marketSlots →
    Valued (Valuation × Fixed)
  | (valuation, pool), i => do
    let account := v.account.value
    let group := v.group.value
    if account.participates i then
      let quoteDecimals := group.quoteToken.decimals
      let price ← v.price i
      let token : Fin tokenSlots := i.castSucc
      let decimals := (group.tokens.get token).decimals
      let held ← v.netBalance token decimals
      let (base, pool) ← match v.openOrders.get i with
        | none => pure (held, pool)
        | some orders => do
          let (base, quote) ← orders.value.exposure price decimals quoteDecimals
          pure (← held.add base, ← pool.add quote)
      let valuation ← if base = 0 then pure valuation else
        valuation.push .spot i base price (.spot (group.spotMarkets.get i) health)
      match account.perpAccount? i with
      | none => return (valuation, pool)
      | some perp =>
        match v.perpMarkets.get i with
        | none => throw .incompleteView
        | some market =>
          let info := group.perpMarkets.get i
          let (base, quote) ← perp.exposure market.value info price decimals quoteDecimals
          let pool ← pool.add quote
          return (← valuation.push .perp i base price (.perp info health), pool)
    else
      return (valuation, pool)

def value (v : View) (health : HealthType) : Valued Valuation := do
  let (valuation, pool) ← (List.finRange marketSlots).foldlM (v.valueMarket health) ({}, 0)
  let quote ← (← v.netBalance quoteIndex v.group.value.quoteToken.decimals).add pool
  if quote = 0 then
    return valuation
  else
    valuation.push .quote quoteIndex quote 1 .unit

end View

structure Calculator where
  healthType : HealthType
  threshold : Fixed

namespace Calculator

def leverage (collateral liabilities : Fixed) : Leverage :=
  if liabilities = 0 then
    .defined 0
  else if collateral ≤ 0 then
    .undefined .zeroCollateral
  else
    (liabilities.div? collateral).elim (.undefined .overflow) .defined

/-- Liquidatable once the liabilities exceed the collateral times the threshold. -/
def verdict (c : Calculator) (collateral liabilities : Fixed) : Verdict :=
  match collateral.mul? c.threshold with
  | none => .indeterminate
  | some capacity =>
    if capacity < liabilities then
      .liquidatable (liabilities.satSub capacity)
    else
      .safe (capacity.satSub liabilities)

/-- A valuation that fails leaves no lines, no totals and no verdict. -/
def evaluate (c : Calculator) (time : Nat) (v : View) : Snapshot :=
  let (valuation, leverage, verdict) := match v.value c.healthType with
    | .ok valuation =>
      (valuation, leverage valuation.collateral valuation.liabilities,
        c.verdict valuation.collateral valuation.liabilities)
    | .error reason => ({}, .undefined reason, .indeterminate)
  { marginAccount := v.account.address
    slotRange := v.slots
    healthType := c.healthType
    collateral := valuation.collateral
    liabilities := valuation.liabilities
    health := valuation.collateral.satSub valuation.liabilities
    leverage
    verdict
    positions := valuation.positions
    computedAt := time }

end Calculator

end Solvency
