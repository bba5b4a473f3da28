import Solvency.Proofs.Risk.Totals

/-! Open orders count as if their bids had filled, whatever else is held of the token. That is
the worse side unless the fill pays a debt back. -/

namespace Solvency

open Fixed

namespace OpenOrders

def amount (n : UInt64) (decimals : UInt8) : Valued Fixed := do
  (← Fixed.ofInt n.toNat).toUi decimals

/-- Base and quote once the locked quote has bought base. -/
def allBids (o : OpenOrders) (held price : Fixed) (decimals quoteDecimals : UInt8) :
    Valued (Fixed × Fixed) := do
  let bought ← (← amount o.quoteLocked quoteDecimals).div price
  let gained ← bought.add (← amount o.baseTokenTotal decimals)
  return (← held.add gained, ← amount o.quoteTokenFree quoteDecimals)

/-- Base and quote once the locked base has been sold. -/
def allAsks (o : OpenOrders) (held price : Fixed) (decimals quoteDecimals : UInt8) :
    Valued (Fixed × Fixed) := do
  let base ← held.add (← amount o.baseTokenFree decimals)
  let received ← (← amount o.baseLocked decimals).mul price
  return (base, ← received.add (← amount o.quoteTokenTotal quoteDecimals))

variable {o : OpenOrders} {held price : Fixed} {decimals quoteDecimals : UInt8}
  {bids asks : Fixed × Fixed}

theorem amount_bounds {n : UInt64} {x : Fixed} (h : amount n decimals = .ok x) :
    x.toRat ≤ n.toNat / 10 ^ decimals.toNat ∧
      (n.toNat : ℚ) / 10 ^ decimals.toNat < x.toRat + ulp := by
  obtain ⟨native, hnative, hx⟩ := bind_eq_ok_iff.mp h
  have hexact : native.toRat = n.toNat := by
    rw [toRat_of_ofInt hnative, Int.cast_natCast]
  have hnonneg : 0 ≤ native := toRat_nonneg.mp (hexact ▸ Nat.cast_nonneg _)
  have herror := abs_lt.mp (toUi_error hx)
  rw [← hexact]
  exact ⟨toUi_le hnonneg hx, by linarith⟩

theorem amount_le {m n : UInt64} (hle : m ≤ n) {x y : Fixed} (hx : amount m decimals = .ok x)
    (hy : amount n decimals = .ok y) : x ≤ y := by
  have hcast : (m.toNat : ℚ) ≤ n.toNat := Nat.cast_le.mpr (UInt64.le_iff_toNat_le.mp hle)
  have hnative : (m.toNat : ℚ) / 10 ^ decimals.toNat ≤ n.toNat / 10 ^ decimals.toNat := by gcongr
  have hlow := (amount_bounds hx).1
  have hhigh := (amount_bounds hy).2
  exact le_of_lt_add_ulp (by linarith)

theorem amount_nonneg {n : UInt64} {x : Fixed} (h : amount n decimals = .ok x) : 0 ≤ x := by
  have hexact : (0 : ℚ) ≤ n.toNat / 10 ^ decimals.toNat := by positivity
  exact nonneg_of_pos_add_ulp (hexact.trans_lt (amount_bounds h).2)

/-- What is free and what is locked add up, but for the places that each of them loses. -/
theorem amount_split {free total : UInt64} (hle : free ≤ total) {x y z : Fixed}
    (hx : amount free decimals = .ok x) (hy : amount (total - free) decimals = .ok y)
    (hz : amount total decimals = .ok z) : |z.toRat - x.toRat - y.toRat| ≤ 2 * ulp := by
  have hnat : total.toNat = free.toNat + (total - free).toNat := by
    rw [UInt64.toNat_sub_of_le _ _ hle]
    have := UInt64.le_iff_toNat_le.mp hle
    omega
  have hsplit : (total.toNat : ℚ) / 10 ^ decimals.toNat =
      free.toNat / 10 ^ decimals.toNat + (total - free).toNat / 10 ^ decimals.toNat := by
    rw [hnat, Nat.cast_add, add_div]
  have hfree := amount_bounds hx
  have hlocked := amount_bounds hy
  have htotal := amount_bounds hz
  rw [abs_le]
  constructor <;> linarith

theorem exposure_eq (o : OpenOrders) (price : Fixed) (decimals quoteDecimals : UInt8) :
    o.exposure price decimals quoteDecimals = (do
      let baseFree ← amount o.baseTokenFree decimals
      let baseTotal ← amount o.baseTokenTotal decimals
      let baseLocked ← amount o.baseLocked decimals
      let quoteFree ← amount o.quoteTokenFree quoteDecimals
      let quoteTotal ← amount o.quoteTokenTotal quoteDecimals
      let quoteLocked ← amount o.quoteLocked quoteDecimals
      let ifAllBids ← (← quoteLocked.div price).add baseTotal
      if baseFree < ifAllBids then
        return (ifAllBids, quoteFree)
      else
        return (baseFree, ← (← baseLocked.mul price).add quoteTotal)) :=
  rfl

theorem allBids_eq_ok_iff :
    o.allBids held price decimals quoteDecimals = .ok bids ↔
      ∃ locked, amount o.quoteLocked quoteDecimals = .ok locked ∧
      ∃ bought, locked.div price = .ok bought ∧
      ∃ total, amount o.baseTokenTotal decimals = .ok total ∧
      ∃ gained, bought.add total = .ok gained ∧ ∃ base, held.add gained = .ok base ∧
      ∃ free, amount o.quoteTokenFree quoteDecimals = .ok free ∧ (base, free) = bids := by
  simp only [allBids, bind_eq_ok_iff, pure_eq_ok_iff]

theorem allAsks_eq_ok_iff :
    o.allAsks held price decimals quoteDecimals = .ok asks ↔
      ∃ free, amount o.baseTokenFree decimals = .ok free ∧ ∃ base, held.add free = .ok base ∧
      ∃ locked, amount o.baseLocked decimals = .ok locked ∧
      ∃ received, locked.mul price = .ok received ∧
      ∃ total, amount o.quoteTokenTotal quoteDecimals = .ok total ∧
      ∃ quote, received.add total = .ok quote ∧ (base, quote) = asks := by
  simp only [allAsks, bind_eq_ok_iff, pure_eq_ok_iff]

/-- No fill leaves more base than that of the bids. -/
theorem asks_le_bids (hbase : o.baseTokenFree ≤ o.baseTokenTotal) (hprice : 0 < price)
    (hbids : o.allBids held price decimals quoteDecimals = .ok bids)
    (hasks : o.allAsks held price decimals quoteDecimals = .ok asks) : asks.1 ≤ bids.1 := by
  obtain ⟨locked, hlocked, bought, hbought, total, htotal, gained, hgained, more, hmore,
    _, _, rfl⟩ := allBids_eq_ok_iff.mp hbids
  obtain ⟨free, hfree, less, hless, _, _, _, _, _, _, _, _, rfl⟩ := allAsks_eq_ok_iff.mp hasks
  have hexact : 0 ≤ locked.toRat / price.toRat :=
    div_nonneg (toRat_nonneg.mpr (amount_nonneg hlocked)) (toRat_pos.mpr hprice).le
  have herror := abs_lt.mp (div_error hbought)
  have hmoreBase : 0 ≤ bought.toRat :=
    toRat_nonneg.mpr (nonneg_of_pos_add_ulp (by linarith))
  have hle := toRat_le_toRat.mpr (amount_le hbase hfree htotal)
  rw [← toRat_le_toRat, toRat_of_add hless, toRat_of_add hmore, toRat_of_add hgained]
  linarith

/-- The sides differ in quote by the price of what they differ by in base, up to rounding. -/
theorem quote_error (hbase : o.baseTokenFree ≤ o.baseTokenTotal)
    (hquote : o.quoteTokenFree ≤ o.quoteTokenTotal) (hprice : 0 < price)
    (hbids : o.allBids held price decimals quoteDecimals = .ok bids)
    (hasks : o.allAsks held price decimals quoteDecimals = .ok asks) :
    |asks.2.toRat - bids.2.toRat - price.toRat * (bids.1.toRat - asks.1.toRat)| ≤
      (3 * price.toRat + 3) * ulp := by
  obtain ⟨quoteLocked, hquoteLocked, bought, hbought, total, htotal, gained, hgained, more, hmore,
    quoteFree, hquoteFree, rfl⟩ := allBids_eq_ok_iff.mp hbids
  obtain ⟨free, hfree, less, hless, locked, hlocked, received, hreceived, quoteTotal, hquoteTotal,
    quote, hall, rfl⟩ := allAsks_eq_ok_iff.mp hasks
  rw [OpenOrders.baseLocked, if_pos hbase] at hlocked
  rw [OpenOrders.quoteLocked, if_pos hquote] at hquoteLocked
  have hpos := toRat_pos.mpr hprice
  have hbaseSplit := abs_le.mp (abs_mul_le hpos.le (amount_split hbase hfree hlocked htotal))
  have hquoteSplit := abs_le.mp (amount_split hquote hquoteFree hquoteLocked hquoteTotal)
  have hboughtError := abs_le.mp (abs_mul_le hpos.le (div_error hbought).le)
  rw [mul_sub, mul_div_cancel₀ _ hpos.ne'] at hboughtError
  have hreceivedError := mul_bounds hreceived
  rw [toRat_of_add hall, toRat_of_add hless, toRat_of_add hmore, toRat_of_add hgained, abs_le]
  constructor <;> linarith

end OpenOrders

namespace View

/-- What is held of a market's token, with all open bids of the market filled. -/
def allBids (v : View) (i : Fin marketSlots) (orders : OpenOrders) (price : Fixed) :
    Valued (Fixed × Fixed) := do
  let decimals := (v.group.value.tokens.get i.castSucc).decimals
  orders.allBids (← v.netBalance i.castSucc decimals) price decimals
    v.group.value.quoteToken.decimals

/-- What is held of a market's token, with all open asks of the market filled. -/
def allAsks (v : View) (i : Fin marketSlots) (orders : OpenOrders) (price : Fixed) :
    Valued (Fixed × Fixed) := do
  let decimals := (v.group.value.tokens.get i.castSucc).decimals
  orders.allAsks (← v.netBalance i.castSucc decimals) price decimals
    v.group.value.quoteToken.decimals

variable {v : View} {i : Fin marketSlots} {orders : Observed OpenOrders} {price : Fixed}
  {bids asks : Fixed × Fixed} {health : HealthType}

theorem exists_held (hbids : v.allBids i orders.value price = .ok bids)
    (hasks : v.allAsks i orders.value price = .ok asks) :
    let decimals := (v.group.value.tokens.get i.castSucc).decimals
    let quoteDecimals := v.group.value.quoteToken.decimals
    ∃ held, v.netBalance i.castSucc decimals = .ok held ∧
      orders.value.allBids held price decimals quoteDecimals = .ok bids ∧
      orders.value.allAsks held price decimals quoteDecimals = .ok asks := by
  obtain ⟨held, hheld, hbids⟩ := bind_eq_ok_iff.mp hbids
  obtain ⟨held', hheld', hasks⟩ := bind_eq_ok_iff.mp hasks
  cases hheld.symm.trans hheld'
  exact ⟨held, hheld, hbids, hasks⟩

/-- The filling that leaves more base is taken, be it a position or a debt. -/
theorem spotSide_of_sides (horders : v.openOrders.get i = some orders)
    (hbids : v.allBids i orders.value price = .ok bids)
    (hasks : v.allAsks i orders.value price = .ok asks) :
    v.spotSide i price = .ok (if asks.1 < bids.1 then bids else asks) := by
  obtain ⟨held, hheld, hbids, hasks⟩ := exists_held hbids hasks
  obtain ⟨quoteLocked, hquoteLocked, bought, hbought, total, htotal, gained, hgained, more, hmore,
    quoteFree, hquoteFree, rfl⟩ := OpenOrders.allBids_eq_ok_iff.mp hbids
  obtain ⟨free, hfree, less, hless, locked, hlocked, received, hreceived, quoteTotal, hquoteTotal,
    quote, hall, rfl⟩ := OpenOrders.allAsks_eq_ok_iff.mp hasks
  have hgrow : free < gained ↔ less < more := by
    rw [← toRat_lt_toRat, ← toRat_lt_toRat, toRat_of_add hless, toRat_of_add hmore]
    exact (add_lt_add_iff_left _).symm
  simp only [spotSide, horders, hheld, OpenOrders.exposure_eq, hfree, htotal, hlocked, hquoteFree,
    hquoteTotal, hquoteLocked, hbought, hgained, hreceived, hall, hgrow, ok_bind]
  by_cases hlarger : less < more
  · rw [if_pos hlarger, if_pos hlarger]
    refine bind_eq_ok_iff.mpr ⟨(gained, quoteFree), rfl, ?_⟩
    rw [hmore]
    rfl
  · rw [if_neg hlarger, if_neg hlarger]
    refine bind_eq_ok_iff.mpr ⟨(free, quote), rfl, ?_⟩
    rw [hless]
    rfl

/-- Base of a market's token that is not zero has its row in every valuation of the view. -/
theorem exists_spot_row {valuation : Valuation} (h : v.value health = .ok valuation)
    (hi : v.account.value.participates i = true) (hprice : v.price i = .ok price)
    {used : Fixed × Fixed} (hused : v.spotSide i price = .ok used) (hbase : used.1 ≠ 0) :
    ∃ row ∈ valuation.positions,
      Valuation.RowOf (v.weights health) ⟨.spot i, used.1, price⟩ row := by
  obtain ⟨lines, hlines, hrows, _⟩ := exists_lines h
  obtain ⟨part, hpart, hsub⟩ := exists_marketLines hlines i
  obtain ⟨_, hfound, _, hspot, perp, _, rfl⟩ := (marketLines_eq_ok_iff hi).mp hpart
  cases hprice.symm.trans hfound
  cases hused.symm.trans hspot
  refine Valuation.exists_row_of_mem hrows (hsub (List.mem_append_left _ ?_))
  rw [Line.unlessZero, if_neg hbase]
  exact List.mem_singleton_self _

/-- Open orders count as filled bids, or as filled asks where these leave the same base. What
counts is worth no more than the other side while it is the larger position. Where it is the
smaller one, because the fill pays a debt back, it is worth the haircut of the difference more. -/
theorem spot_side_worse_unless_repaying (horders : v.openOrders.get i = some orders)
    (hbase : orders.value.baseTokenFree ≤ orders.value.baseTokenTotal)
    (hquote : orders.value.quoteTokenFree ≤ orders.value.quoteTokenTotal)
    (hweights : (Weights.spot (v.group.value.spotMarkets.get i) health).Balanced)
    (hprice : v.price i = .ok price)
    (hbids : v.allBids i orders.value price = .ok bids)
    (hasks : v.allAsks i orders.value price = .ok asks) {bidsWorth asksWorth : Fixed}
    (hbidsWorth : (Weights.spot (v.group.value.spotMarkets.get i) health).worth price bids =
      .ok bidsWorth)
    (hasksWorth : (Weights.spot (v.group.value.spotMarkets.get i) health).worth price asks =
      .ok asksWorth) :
    let rounding := 8 * (price.toRat + 1) * ulp
    let haircut := (Weights.spot (v.group.value.spotMarkets.get i) health).haircut
    ∃ used, v.spotSide i price = .ok used ∧
      (∀ valuation, v.value health = .ok valuation → v.account.value.participates i = true →
        used.1 ≠ 0 → ∃ row ∈ valuation.positions,
          Valuation.RowOf (v.weights health) ⟨.spot i, used.1, price⟩ row) ∧
      ((asks.1 < bids.1 ∧ used = bids ∧
          (|asks.1.toRat| ≤ |bids.1.toRat| → bidsWorth.toRat ≤ asksWorth.toRat + rounding)) ∨
        (asks.1 = bids.1 ∧ used = asks ∧ asksWorth.toRat ≤ bidsWorth.toRat + rounding)) ∧
      |bidsWorth.toRat - asksWorth.toRat -
        haircut * price.toRat * (|asks.1.toRat| - |bids.1.toRat|)| ≤ rounding := by
  intro rounding haircut
  have hpos := price_pos hprice
  obtain ⟨held, _, hheldBids, hheldAsks⟩ := exists_held hbids hasks
  have hle := OpenOrders.asks_le_bids hbase hpos hheldBids hheldAsks
  have hworth : |bidsWorth.toRat - asksWorth.toRat -
      haircut * price.toRat * (|asks.1.toRat| - |bids.1.toRat|)| ≤ rounding := by
    have hround : 0 ≤ (5 * price.toRat + 2) * ulp :=
      mul_nonneg (by linarith [toRat_pos.mpr hpos]) ulp_pos.le
    refine (hweights.worth_sub hpos hbidsWorth hasksWorth
      (OpenOrders.quote_error hbase hquote hpos hheldBids hheldAsks)).trans ?_
    linarith
  obtain ⟨hbidsWorse, hasksWorse⟩ := hweights.worse_of_larger hpos hworth
  refine ⟨_, spotSide_of_sides horders hbids hasks, fun valuation hvaluation hi hused =>
    exists_spot_row hvaluation hi hprice (spotSide_of_sides horders hbids hasks) hused, ?_, hworth⟩
  by_cases hlarger : asks.1 < bids.1
  · exact .inl ⟨hlarger, if_pos hlarger, hbidsWorse⟩
  · have hsame : asks.1.toRat = bids.1.toRat :=
      le_antisymm (toRat_le_toRat.mpr hle) (toRat_le_toRat.mpr (Int.not_lt.mp hlarger))
    exact .inr ⟨toRat_inj.mp hsame, if_neg hlarger, hasksWorse (congrArg _ hsame).ge⟩

/-- Of a token at price 1, 50 are offered, and 20 of the quote are bid for it. -/
def offered : OpenOrders :=
  { (default : OpenOrders) with baseTokenTotal := 50, quoteTokenFree := 10, quoteTokenTotal := 30 }

/-- Beside what it deposited or borrowed of the token, the account holds 60 of the quote. -/
def resting (deposit borrow : Fixed) : View :=
  { (default : View) with
    account := { (default : Observed MarginAccount) with
      value := { (default : MarginAccount) with
        inMarginBasket := .ofFn (·.val == 0)
        spotOpenOrders := .ofFn fun i => if i.val = 0 then ⟨6⟩ else .zero
        deposits := .ofFn fun i => if i.val = 0 then deposit else if i.val = 15 then whole 60 else 0
        borrows := .ofFn fun i => if i.val = 0 then borrow else 0 } }
    group := { (default : Observed Group) with
      value := { (default : Group) with
        spotMarkets := .ofFn fun _ => { (default : SpotMarketInfo) with
          spotMarket := ⟨9⟩
          maintAssetWeight := Weights.halved.asset
          maintLiabWeight := Weights.halved.liab } } }
    rootBanks := .ofFn fun _ => some default
    oracles := .ofFn fun _ => some ⟨⟨4⟩, 0, { (default : OraclePrice) with
      aggregate := { (default : PriceInfo) with price := 1, status := .trading } }⟩
    openOrders := .ofFn fun i => if i.val = 0 then some ⟨⟨6⟩, 0, offered⟩ else none }

def deposited : View := resting (whole 100) 0

theorem spot_side_worse_unless_repaying_deposited :
    ∃ bids asks bidsWorth asksWorth valuation,
      deposited.allBids 0 offered 1 = .ok bids ∧ deposited.allAsks 0 offered 1 = .ok asks ∧
      Weights.halved.worth 1 bids = .ok bidsWorth ∧ Weights.halved.worth 1 asks = .ok asksWorth ∧
      deposited.value .maintenance = .ok valuation ∧ deposited.spotSide 0 1 = .ok bids ∧
      (∃ row ∈ valuation.positions,
        Valuation.RowOf (deposited.weights .maintenance) ⟨.spot 0, bids.1, 1⟩ row) ∧
      bidsWorth.toRat ≤ asksWorth.toRat + 8 * ((1 : Fixed).toRat + 1) * ulp := by
  have hbids : deposited.allBids 0 offered 1 = .ok (whole 170, whole 10) := by decide +kernel
  have hasks : deposited.allAsks 0 offered 1 = .ok (whole 100, whole 80) := by decide +kernel
  have hbidsWorth : Weights.halved.worth 1 (whole 170, whole 10) = .ok (whole 95) := by
    decide +kernel
  have hasksWorth : Weights.halved.worth 1 (whole 100, whole 80) = .ok (whole 130) := by
    decide +kernel
  have hspot : deposited.spotSide 0 1 = .ok (whole 170, whole 10) := by decide +kernel
  have hvalue : (deposited.value .maintenance).isOk = true := by decide +kernel
  obtain ⟨valuation, hvaluation⟩ := exists_of_isOk hvalue
  have horders : deposited.openOrders.get 0 = some ⟨⟨6⟩, 0, offered⟩ := by decide +kernel
  have hweights : (Weights.spot (deposited.group.value.spotMarkets.get 0) .maintenance).Balanced :=
    Weights.balanced_halved
  obtain ⟨used, hused, hrow, hside, _⟩ := spot_side_worse_unless_repaying horders (by decide)
    (by decide) hweights (by decide +kernel) hbids hasks hbidsWorth hasksWorth
  cases hspot.symm.trans hused
  refine ⟨_, _, _, _, valuation, hbids, hasks, hbidsWorth, hasksWorth, hvaluation, hspot,
    hrow valuation hvaluation (by decide) (by decide), ?_⟩
  rcases hside with ⟨_, _, hworse⟩ | ⟨hsame, _⟩
  · apply hworse
    rw [toRat_whole (k := 100) rfl, toRat_whole (k := 170) rfl]
    norm_num
  · exact absurd hsame (by decide)

def borrowed : View := resting 0 (whole 100)

/-- The bids pay 70 of a debt of 100 back, the asks nothing of it. The bids are taken although
the asks are worth 35 less. -/
theorem bids_repaying_taken :
    ∃ bids asks bidsWorth asksWorth,
      (borrowed.value .maintenance).isOk = true ∧ borrowed.account.value.participates 0 = true ∧
      borrowed.openOrders.get 0 = some ⟨⟨6⟩, 0, offered⟩ ∧
      offered.baseTokenFree ≤ offered.baseTokenTotal ∧
      offered.quoteTokenFree ≤ offered.quoteTokenTotal ∧
      borrowed.price 0 = .ok 1 ∧
      Weights.spot (borrowed.group.value.spotMarkets.get 0) .maintenance = Weights.halved ∧
      Weights.halved.Balanced ∧
      borrowed.allBids 0 offered 1 = .ok bids ∧ borrowed.allAsks 0 offered 1 = .ok asks ∧
      Weights.halved.worth 1 bids = .ok bidsWorth ∧ Weights.halved.worth 1 asks = .ok asksWorth ∧
      borrowed.spotSide 0 1 = .ok bids ∧
      asksWorth.toRat + 8 * ((1 : Fixed).toRat + 1) * ulp < bidsWorth.toRat := by
  refine ⟨(whole (-30), whole 10), (whole (-100), whole 80), whole (-35), whole (-70),
    by decide +kernel, by decide, rfl, by decide, by decide, by decide +kernel, rfl,
    Weights.balanced_halved, by decide +kernel, by decide +kernel, by decide +kernel,
    by decide +kernel, by decide +kernel, ?_⟩
  rw [toRat_one, toRat_whole (k := -70) rfl, toRat_whole (k := -35) rfl]
  norm_num [ulp, scale]

end View

end Solvency
