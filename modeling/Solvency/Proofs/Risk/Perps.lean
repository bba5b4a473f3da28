import Solvency.Proofs.Risk.Worth

/-! Perpetual positions count as if the worse side of their orders had filled. Going by the
larger of the two positions finds that side up to rounding. -/

namespace Solvency

open Fixed

namespace PerpAccount

def lots (count : Int) (size : Int64) : Valued Fixed := do
  (← Fixed.ofInt count).mul (← Fixed.ofInt size.toInt)

/-- What one lot owes since it last settled. A long position pays what long ones have been charged
since, a short one what short ones have, and no position owes nothing. -/
def lotFunding (p : PerpAccount) (market : PerpMarket) : Valued Fixed :=
  if p.basePosition = 0 then return 0
  else if p.basePosition < 0 then market.shortFunding.sub p.shortSettledFunding
  else market.longFunding.sub p.longSettledFunding

/-- The quote of a position with its taken fills, less the funding of all its lots. -/
def fundedQuote (p : PerpAccount) (market : PerpMarket) (info : PerpMarketInfo)
    (quoteDecimals : UInt8) : Valued Fixed := do
  let taken ← lots p.takerQuote.toInt info.quoteLotSize
  let funding ← (← p.lotFunding market).mul (← Fixed.ofInt p.basePosition.toInt)
  (← (← p.quotePosition.sub funding).add taken).toUi quoteDecimals

/-- Base and quote once all resting bids have filled. -/
def allBids (p : PerpAccount) (market : PerpMarket) (info : PerpMarketInfo) (price : Fixed)
    (decimals quoteDecimals : UInt8) : Valued (Fixed × Fixed) := do
  let position ← lots (p.basePosition.toInt + p.takerBase.toInt) info.baseLotSize
  let bids ← lots p.bidsQuantity.toInt info.baseLotSize
  let quote ← p.fundedQuote market info quoteDecimals
  return (← (← position.add bids).toUi decimals, ← quote.sub (← (← bids.toUi decimals).mul price))

/-- Base and quote once all resting asks have filled. -/
def allAsks (p : PerpAccount) (market : PerpMarket) (info : PerpMarketInfo) (price : Fixed)
    (decimals quoteDecimals : UInt8) : Valued (Fixed × Fixed) := do
  let position ← lots (p.basePosition.toInt + p.takerBase.toInt) info.baseLotSize
  let asks ← lots p.asksQuantity.toInt info.baseLotSize
  let quote ← p.fundedQuote market info quoteDecimals
  return (← (← position.sub asks).toUi decimals, ← quote.add (← (← asks.toUi decimals).mul price))

variable {p : PerpAccount} {market : PerpMarket} {info : PerpMarketInfo} {price : Fixed}
  {decimals quoteDecimals : UInt8} {bids asks : Fixed × Fixed}

theorem exists_ofInt (n : Int64) : ∃ x, Fixed.ofInt n.toInt = .ok x := by
  have hle : -9223372036854775808 ≤ n.toInt := n.le_toInt
  have hlt : n.toInt < 9223372036854775808 := n.toInt_lt
  have hlow : -bound ≤ n.toInt * scale := by
    simp only [bound, scale]
    omega
  have hhigh : n.toInt * scale < bound := by
    simp only [bound, scale]
    omega
  exact ⟨_, Valued.ofOption_eq_ok_iff.mpr (ofRaw?_eq_some hlow hhigh)⟩

theorem unsettledFunding_eq (p : PerpAccount) (market : PerpMarket) :
    p.unsettledFunding market =
      (do (← p.lotFunding market).mul (← Fixed.ofInt p.basePosition.toInt)) := by
  obtain ⟨position, hposition⟩ := exists_ofInt p.basePosition
  simp only [unsettledFunding, lotFunding, hposition, ok_bind]
  by_cases hnone : p.basePosition = 0
  · have hzero : (0 : Fixed).mul position = .ok 0 := by
      rw [mul, mul?, show (0 : Fixed).raw * position.raw = 0 from Int.zero_mul _]
      rfl
    rw [if_pos hnone, hnone, if_neg (by decide), if_neg (by decide)]
    exact hzero.symm
  · rw [if_neg hnone]
    by_cases hlong : 0 < p.basePosition
    · rw [if_pos hlong, if_neg (Int64.not_lt.mpr (Int64.le_of_lt hlong))]
    · have hshort : p.basePosition < 0 := Int64.lt_of_le_of_ne (Int64.not_lt.mp hlong) hnone
      rw [if_neg hlong, if_pos hshort, if_pos hshort]

theorem exposure_eq (p : PerpAccount) (market : PerpMarket) (info : PerpMarketInfo)
    (price : Fixed) (decimals quoteDecimals : UInt8) :
    p.exposure market info price decimals quoteDecimals = (do
      let position ← lots (p.basePosition.toInt + p.takerBase.toInt) info.baseLotSize
      let bids ← lots p.bidsQuantity.toInt info.baseLotSize
      let asks ← lots p.asksQuantity.toInt info.baseLotSize
      let ifAllBids ← (← position.add bids).toUi decimals
      let ifAllAsks ← (← position.sub asks).toUi decimals
      let quote ← p.fundedQuote market info quoteDecimals
      if (← ifAllAsks.abs) < (← ifAllBids.abs) then
        return (ifAllBids, ← quote.sub (← (← bids.toUi decimals).mul price))
      else
        return (ifAllAsks, ← quote.add (← (← asks.toUi decimals).mul price))) := by
  obtain ⟨baseLot, hbaseLot⟩ := exists_ofInt info.baseLotSize
  obtain ⟨quoteLot, hquoteLot⟩ := exists_ofInt info.quoteLotSize
  simp only [exposure, lots, fundedQuote, unsettledFunding_eq, hbaseLot, hquoteLot, ok_bind,
    bind_assoc]

theorem allBids_eq_ok_iff :
    p.allBids market info price decimals quoteDecimals = .ok bids ↔
      ∃ position, lots (p.basePosition.toInt + p.takerBase.toInt) info.baseLotSize = .ok position ∧
      ∃ resting, lots p.bidsQuantity.toInt info.baseLotSize = .ok resting ∧
      ∃ quote, p.fundedQuote market info quoteDecimals = .ok quote ∧
      ∃ filled, position.add resting = .ok filled ∧ ∃ base, filled.toUi decimals = .ok base ∧
      ∃ bought, resting.toUi decimals = .ok bought ∧ ∃ paid, bought.mul price = .ok paid ∧
      ∃ left, quote.sub paid = .ok left ∧ (base, left) = bids := by
  simp only [allBids, bind_eq_ok_iff, pure_eq_ok_iff]

theorem allAsks_eq_ok_iff :
    p.allAsks market info price decimals quoteDecimals = .ok asks ↔
      ∃ position, lots (p.basePosition.toInt + p.takerBase.toInt) info.baseLotSize = .ok position ∧
      ∃ resting, lots p.asksQuantity.toInt info.baseLotSize = .ok resting ∧
      ∃ quote, p.fundedQuote market info quoteDecimals = .ok quote ∧
      ∃ filled, position.sub resting = .ok filled ∧ ∃ base, filled.toUi decimals = .ok base ∧
      ∃ sold, resting.toUi decimals = .ok sold ∧ ∃ received, sold.mul price = .ok received ∧
      ∃ left, quote.add received = .ok left ∧ (base, left) = asks := by
  simp only [allAsks, bind_eq_ok_iff, pure_eq_ok_iff]

/-- The side that leaves the larger position is taken, if both positions have a size. -/
theorem exposure_of_sides (hbids : p.allBids market info price decimals quoteDecimals = .ok bids)
    (hasks : p.allAsks market info price decimals quoteDecimals = .ok asks) :
    p.exposure market info price decimals quoteDecimals = (do
      if (← asks.1.abs) < (← bids.1.abs) then return bids else return asks) := by
  obtain ⟨position, hposition, bid, hbid, quote, hquote, more, hmore, high, hhigh, bought, hbought,
    paid, hpaid, rest, hrest, rfl⟩ := allBids_eq_ok_iff.mp hbids
  obtain ⟨position', hposition', ask, hask, quote', hquote', less, hless, low, hlow, sold, hsold,
    received, hreceived, rest', hrest', rfl⟩ := allAsks_eq_ok_iff.mp hasks
  obtain rfl : position = position' := Except.ok.inj (hposition.symm.trans hposition')
  obtain rfl : quote = quote' := Except.ok.inj (hquote.symm.trans hquote')
  simp only [exposure_eq, hposition, hbid, hask, hmore, hhigh, hless, hlow, hquote, hbought, hpaid,
    hrest, hsold, hreceived, hrest', ok_bind]

/-- The sides differ in quote by the price of what they differ by in base, up to rounding. -/
theorem quote_error (hprice : 0 < price)
    (hbids : p.allBids market info price decimals quoteDecimals = .ok bids)
    (hasks : p.allAsks market info price decimals quoteDecimals = .ok asks) :
    |asks.2.toRat - bids.2.toRat - price.toRat * (bids.1.toRat - asks.1.toRat)| ≤
      (4 * price.toRat + 2) * ulp := by
  obtain ⟨position, hposition, bid, -, quote, hquote, more, hmore, high, hhigh, bought, hbought,
    paid, hpaid, rest, hrest, rfl⟩ := allBids_eq_ok_iff.mp hbids
  obtain ⟨position', hposition', ask, -, quote', hquote', less, hless, low, hlow, sold, hsold,
    received, hreceived, rest', hrest', rfl⟩ := allAsks_eq_ok_iff.mp hasks
  obtain rfl : position = position' := Except.ok.inj (hposition.symm.trans hposition')
  obtain rfl : quote = quote' := Except.ok.inj (hquote.symm.trans hquote')
  have hhighError := abs_lt.mp (toUi_error hhigh)
  have hlowError := abs_lt.mp (toUi_error hlow)
  have hboughtError := abs_lt.mp (toUi_error hbought)
  have hsoldError := abs_lt.mp (toUi_error hsold)
  rw [toRat_of_add hmore, add_div] at hhighError
  rw [toRat_of_sub hless, sub_div] at hlowError
  have hbase : |high.toRat - low.toRat - (bought.toRat + sold.toRat)| ≤ 4 * ulp := by
    rw [abs_le]
    constructor <;> linarith
  have hbasePrice := abs_le.mp (abs_mul_le (toRat_pos.mpr hprice).le hbase)
  have hpaidError := mul_bounds hpaid
  have hreceivedError := mul_bounds hreceived
  rw [toRat_of_sub hrest, toRat_of_add hrest', abs_le]
  constructor <;> linarith

theorem exists_exposure_iff
    (hbids : p.allBids market info price decimals quoteDecimals = .ok bids)
    (hasks : p.allAsks market info price decimals quoteDecimals = .ok asks) :
    (∃ used, p.exposure market info price decimals quoteDecimals = .ok used) ↔
      bids.1 ≠ .min ∧ asks.1 ≠ .min := by
  rw [exposure_of_sides hbids hasks, ← exists_abs, ← exists_abs]
  constructor
  · rintro ⟨used, hused⟩
    obtain ⟨low, hlow, hused⟩ := bind_eq_ok_iff.mp hused
    obtain ⟨high, hhigh, _⟩ := bind_eq_ok_iff.mp hused
    exact ⟨⟨high, hhigh⟩, ⟨low, hlow⟩⟩
  · rintro ⟨⟨high, hhigh⟩, ⟨low, hlow⟩⟩
    rw [hlow, hhigh, ok_bind, ok_bind]
    split
    · exact ⟨bids, rfl⟩
    · exact ⟨asks, rfl⟩

/-- Whichever side the valuation takes, it is worth no more than the other one. It takes one
unless a position has no size in the range of the numbers. -/
theorem exposure_is_worse_side (health : HealthType)
    (hweights : (Weights.perp info health).Balanced) (hprice : 0 < price)
    (hbids : p.allBids market info price decimals quoteDecimals = .ok bids)
    (hasks : p.allAsks market info price decimals quoteDecimals = .ok asks)
    {bidsWorth asksWorth : Fixed}
    (hbidsWorth : (Weights.perp info health).worth price bids = .ok bidsWorth)
    (hasksWorth : (Weights.perp info health).worth price asks = .ok asksWorth) :
    (∀ used, p.exposure market info price decimals quoteDecimals = .ok used →
      (used = bids ∧ bidsWorth.toRat ≤ asksWorth.toRat + 8 * (price.toRat + 1) * ulp) ∨
      (used = asks ∧ asksWorth.toRat ≤ bidsWorth.toRat + 8 * (price.toRat + 1) * ulp)) ∧
    ((∃ used, p.exposure market info price decimals quoteDecimals = .ok used) ↔
      bids.1 ≠ .min ∧ asks.1 ≠ .min) := by
  refine ⟨fun used hused => ?_, exists_exposure_iff hbids hasks⟩
  have hround : 0 ≤ (4 * price.toRat + 3) * ulp :=
    mul_nonneg (by linarith [toRat_pos.mpr hprice]) ulp_pos.le
  obtain ⟨hbidsWorse, hasksWorse⟩ := hweights.worse_of_larger hprice
    ((hweights.worth_sub hprice hbidsWorth hasksWorth (quote_error hprice hbids hasks)).trans
      (show _ ≤ 8 * (price.toRat + 1) * ulp by linarith))
  rw [exposure_of_sides hbids hasks] at hused
  obtain ⟨low, hlow, hused⟩ := bind_eq_ok_iff.mp hused
  obtain ⟨high, hhigh, hused⟩ := bind_eq_ok_iff.mp hused
  rw [← toRat_of_abs hlow, ← toRat_of_abs hhigh] at hbidsWorse hasksWorse
  by_cases hlarger : low < high
  · rw [if_pos hlarger, pure_eq_ok_iff] at hused
    exact .inl ⟨hused.symm, hbidsWorse (toRat_lt_toRat.mpr hlarger).le⟩
  · rw [if_neg hlarger, pure_eq_ok_iff] at hused
    have hle : high ≤ low := Int.not_lt.mp hlarger
    exact .inr ⟨hused.symm, hasksWorse (toRat_le_toRat.mpr hle)⟩

/-- A short position with orders on both sides, a taken bid and funding to receive. -/
def short : PerpAccount :=
  { (default : PerpAccount) with
    basePosition := -70
    quotePosition := whole 1000
    shortSettledFunding := 1
    bidsQuantity := 20
    asksQuantity := 30
    takerBase := 10
    takerQuote := 5 }

def shortMarket : PerpMarket := { (default : PerpMarket) with shortFunding := whole 2 }

def shortInfo : PerpMarketInfo :=
  { (default : PerpMarketInfo) with
    maintAssetWeight := Weights.halved.asset
    maintLiabWeight := Weights.halved.liab
    baseLotSize := 10
    quoteLotSize := 100 }

theorem exposure_is_worse_side_short :
    ∃ bids asks bidsWorth asksWorth,
      short.allBids shortMarket shortInfo (whole 2) 2 1 = .ok bids ∧
      short.allAsks shortMarket shortInfo (whole 2) 2 1 = .ok asks ∧
      Weights.halved.worth (whole 2) bids = .ok bidsWorth ∧
      Weights.halved.worth (whole 2) asks = .ok asksWorth ∧
      short.exposure shortMarket shortInfo (whole 2) 2 1 = .ok asks ∧
      asksWorth.toRat ≤ bidsWorth.toRat + 8 * ((whole 2).toRat + 1) * ulp := by
  have hbids : short.allBids shortMarket shortInfo (whole 2) 2 1 = .ok (whole (-4), whole 153) := by
    decide +kernel
  have hasks : short.allAsks shortMarket shortInfo (whole 2) 2 1 = .ok (whole (-9), whole 163) := by
    decide +kernel
  have hbidsWorth : Weights.halved.worth (whole 2) (whole (-4), whole 153) = .ok (whole 141) := by
    decide +kernel
  have hasksWorth : Weights.halved.worth (whole 2) (whole (-9), whole 163) = .ok (whole 136) := by
    decide +kernel
  have hused : short.exposure shortMarket shortInfo (whole 2) 2 1 =
      .ok (whole (-9), whole 163) := by decide +kernel
  refine ⟨_, _, _, _, hbids, hasks, hbidsWorth, hasksWorth, hused, ?_⟩
  have hweights : (Weights.perp shortInfo .maintenance).Balanced := Weights.balanced_halved
  obtain ⟨hworse, _⟩ := exposure_is_worse_side .maintenance hweights (by decide) hbids hasks
    hbidsWorth hasksWorth
  rcases hworse _ hused with ⟨hsame, _⟩ | ⟨_, hworse⟩
  · exact absurd hsame (by decide)
  · exact hworse

end PerpAccount

end Solvency
