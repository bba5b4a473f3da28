import Solvency.Proofs.Risk.Balances

/-! A market in which an account only holds or owes tokens has one line. A higher price of it adds
to the collateral where the tokens are held, to the liabilities where they are owed, and moves
nothing else. -/

namespace Solvency

open Fixed

structure OraclePrice.TradesAt (o : OraclePrice) (price : Fixed) : Prop where
  trading : o.isTrading = true
  price : o.uiPrice? = some price

namespace Line

variable {weights : Place → Weights} {place : Place} {amount price price' : Fixed}

theorem worth_nonneg (hweights : (weights place).Nonneg) (hamount : 0 ≤ amount)
    (hprice : 0 ≤ price) :
    0 ≤ (⟨place, amount, price⟩ : Line).worth weights :=
  hweights.weighted_nonneg (roundDown_nonneg
    (mul_nonneg (toRat_nonneg.mpr hamount) (toRat_nonneg.mpr hprice)))

theorem worth_nonpos (hweights : (weights place).Nonneg) (hamount : amount ≤ 0)
    (hprice : 0 ≤ price) :
    (⟨place, amount, price⟩ : Line).worth weights ≤ 0 :=
  hweights.weighted_nonpos (roundDown_nonpos
    (mul_nonpos_of_nonpos_of_nonneg (toRat_nonpos.mpr hamount) (toRat_nonneg.mpr hprice)))

theorem worth_le_of_price_le (hweights : (weights place).Nonneg) (hamount : 0 ≤ amount)
    (h : price ≤ price') :
    (⟨place, amount, price⟩ : Line).worth weights ≤
      (⟨place, amount, price'⟩ : Line).worth weights :=
  hweights.weighted_mono (roundDown_mono
    (mul_le_mul_of_nonneg_left (toRat_le_toRat.mpr h) (toRat_nonneg.mpr hamount)))

theorem worth_ge_of_price_le (hweights : (weights place).Nonneg) (hamount : amount ≤ 0)
    (h : price ≤ price') :
    (⟨place, amount, price'⟩ : Line).worth weights ≤
      (⟨place, amount, price⟩ : Line).worth weights :=
  hweights.weighted_mono (roundDown_mono
    (mul_le_mul_of_nonpos_left (toRat_le_toRat.mpr h) (toRat_nonpos.mpr hamount)))

end Line

namespace View

/-- The view with another oracle for a market. -/
def withOracle (v : View) (i : Fin marketSlots) (oracle : Observed OraclePrice) : View :=
  { v with oracles := v.oracles.set i (some oracle) }

variable {v : View} {health : HealthType} {i j : Fin marketSlots} {oracle : Observed OraclePrice}
  {price price' held : Fixed}

theorem price_of_tradesAt (horacle : v.oracles.get i = some oracle)
    (h : oracle.value.TradesAt price) (hpos : 0 < price) : v.price i = .ok price := by
  have hfound : Valued.ofOption oracle.value.uiPrice? = .ok price :=
    Valued.ofOption_eq_ok_iff.mpr h.price
  simp only [View.price, horacle, h.trading, if_true, hfound, ok_bind, hpos]
  rfl

theorem oracles_withOracle : (v.withOracle i oracle).oracles.get i = some oracle :=
  Vector.getElem_set_self i.isLt

theorem price_withOracle_of_ne (h : j ≠ i) : (v.withOracle i oracle).price j = v.price j := by
  have hget : (v.withOracle i oracle).oracles.get j = v.oracles.get j :=
    Vector.getElem_set_ne i.isLt j.isLt fun hij => h (Fin.ext hij.symm)
  rw [View.price, View.price, hget]

theorem marketLines_withOracle_of_ne (h : j ≠ i) :
    (v.withOracle i oracle).marketLines j = v.marketLines j := by
  rw [marketLines, marketLines, price_withOracle_of_ne h]
  rfl

theorem market_totals_of_balance_only {part : List Line × List Fixed} (weights : Place → Weights)
    (horders : v.openOrders.get i = none) (hperp : v.account.value.perpAccount? i = none)
    (hheld : v.netBalance i.castSucc (v.group.value.tokens.get i.castSucc).decimals = .ok held)
    (hpart : v.marketLines i = .ok part) (hprice : v.price i = .ok price) :
    collateralOf (part.1.map (Line.worth weights)) =
        max ((⟨.spot i, held, price⟩ : Line).worth weights) 0 ∧
      liabilitiesOf (part.1.map (Line.worth weights)) =
        max (-(⟨.spot i, held, price⟩ : Line).worth weights) 0 ∧
      (part.2.map toRat).sum = 0 := by
  obtain ⟨spot, perp, hspot, hperpSide, hcollateral, hliabilities, hpool⟩ :=
    market_totals weights (fun _ => horders) hpart hprice
  have hspot' : v.spotSide i price = .ok (held, 0) := by
    rw [spotSide, hheld, horders]
    rfl
  have hperpSide' : v.perpSide i price = .ok ([], []) := by
    rw [perpSide, hperp]
    rfl
  obtain rfl := Except.ok.inj (hspot.symm.trans hspot')
  obtain rfl := Except.ok.inj (hperpSide.symm.trans hperpSide')
  refine ⟨hcollateral.trans ?_, hliabilities.trans ?_, hpool.trans ?_⟩
  · simp [collateralOf]
  · simp [liabilitiesOf]
  · simp

/-- Repricing a market changes the totals by what its line changes. -/
theorem totals_withOracle {valuation valuation' : Valuation}
    (horders : v.openOrders.get i = none) (hperp : v.account.value.perpAccount? i = none)
    (hheld : v.netBalance i.castSucc (v.group.value.tokens.get i.castSucc).decimals = .ok held)
    (hprice : v.price i = .ok price) (hprice' : (v.withOracle i oracle).price i = .ok price')
    (h : v.value health = .ok valuation)
    (h' : (v.withOracle i oracle).value health = .ok valuation') :
    let worth (price : Fixed) := (⟨.spot i, held, price⟩ : Line).worth (v.weights health)
    valuation'.collateral.toRat - valuation.collateral.toRat =
        max (worth price') 0 - max (worth price) 0 ∧
      valuation'.liabilities.toRat - valuation.liabilities.toRat =
        max (-worth price') 0 - max (-worth price) 0 := by
  intro worth
  obtain ⟨markets, quoteHeld, quote, hmarkets, hquoteHeld, hquote, hcollateral, hliabilities⟩ :=
    totals_of_value h
  obtain ⟨markets', quoteHeld', quote', hmarkets', hquoteHeld', hquote', hcollateral',
    hliabilities'⟩ := totals_of_value h'
  obtain rfl : quoteHeld = quoteHeld' := Except.ok.inj (hquoteHeld.symm.trans hquoteHeld')
  obtain ⟨hgain, hloss, hpool⟩ :=
    market_totals_of_balance_only (v.weights health) horders hperp hheld (hmarkets i) hprice
  obtain ⟨hgain', hloss', hpool'⟩ :=
    market_totals_of_balance_only (v := v.withOracle i oracle) (v.weights health) horders hperp
      hheld (hmarkets' i) hprice'
  have hother (j : Fin marketSlots) (hj : j ≠ i) : markets' j = markets j := by
    have hsame := (hmarkets' j).symm.trans (marketLines_withOracle_of_ne hj)
    exact Except.ok.inj (hsame.trans (hmarkets j))
  have hdifference (f : List Line × List Fixed → ℚ) :
      ∑ j, f (markets' j) - ∑ j, f (markets j) = f (markets' i) - f (markets i) := by
    rw [← Finset.sum_sub_distrib]
    refine Finset.sum_eq_single i (fun j _ hj => ?_) (fun hi => absurd (Finset.mem_univ i) hi)
    rw [hother j hj, sub_self]
  have hsame : quote'.toRat = quote.toRat := by
    have hpools := hdifference fun part => (part.2.map toRat).sum
    rw [hpool, hpool', sub_self] at hpools
    rw [hquote, hquote', sub_eq_zero.mp hpools]
  constructor
  · rw [hcollateral, hcollateral', hsame, add_sub_add_right_eq_sub, ← hgain, ← hgain']
    exact hdifference fun part => collateralOf (part.1.map (Line.worth (v.weights health)))
  · rw [hliabilities, hliabilities', hsame, add_sub_add_right_eq_sub, ← hloss, ← hloss']
    exact hdifference fun part => liabilitiesOf (part.1.map (Line.worth (v.weights health)))

end View

namespace Calculator

/-- A market in which the account has a balance, but no open orders and no perpetual position,
trades at a higher price. What is held raises the collateral and leaves the liabilities, what is
owed raises the liabilities and leaves the collateral, and leverage follows. -/
theorem higher_price_moves_one_side {v : View} {i : Fin marketSlots}
    {before after : Observed OraclePrice} {price price' held : Fixed} (c : Calculator)
    (hweights : (Weights.spot (v.group.value.spotMarkets.get i) c.healthType).Nonneg)
    (horders : v.openOrders.get i = none) (hperp : v.account.value.perpAccount? i = none)
    (hbefore : v.oracles.get i = some before) (hprice : before.value.TradesAt price)
    (hprice' : after.value.TradesAt price') (hpos : 0 < price) (hhigher : price ≤ price')
    (hheld : v.netBalance i.castSucc (v.group.value.tokens.get i.castSucc).decimals = .ok held)
    (hvalue : (v.value c.healthType).isOk = true)
    (hvalue' : ((v.withOracle i after).value c.healthType).isOk = true) (time time' : Nat) :
    let snapshot := c.evaluate time v
    let snapshot' := c.evaluate time' (v.withOracle i after)
    (0 < held → snapshot.collateral ≤ snapshot'.collateral ∧
      snapshot'.liabilities = snapshot.liabilities ∧
      ∀ x x', snapshot.leverage = .defined x → snapshot'.leverage = .defined x' → x' ≤ x) ∧
    (held < 0 → snapshot.liabilities ≤ snapshot'.liabilities ∧
      snapshot'.collateral = snapshot.collateral ∧
      ∀ x x', snapshot.leverage = .defined x → snapshot'.leverage = .defined x' → x ≤ x') := by
  intro snapshot snapshot'
  obtain ⟨valuation, h⟩ := exists_of_isOk hvalue
  obtain ⟨valuation', h'⟩ := exists_of_isOk hvalue'
  have hpos' : 0 < price' := Int.lt_of_lt_of_le hpos hhigher
  obtain ⟨hcollateral, hliabilities⟩ := View.totals_withOracle horders hperp hheld
    (View.price_of_tradesAt hbefore hprice hpos)
    (View.price_of_tradesAt View.oracles_withOracle hprice' hpos') h h'
  have hplace : (v.weights c.healthType (.spot i)).Nonneg := hweights
  have hle : 0 ≤ price := Int.le_of_lt hpos
  have hle' : 0 ≤ price' := Int.le_of_lt hpos'
  simp only [snapshot, snapshot', evaluate, h, h']
  constructor
  · intro hheldPos
    have hamount : 0 ≤ held := Int.le_of_lt hheldPos
    have hworth := Line.worth_nonneg hplace hamount hle
    have hworth' := Line.worth_nonneg hplace hamount hle'
    have hgrown := Line.worth_le_of_price_le hplace hamount hhigher
    rw [max_eq_left hworth, max_eq_left hworth'] at hcollateral
    rw [max_eq_right (neg_nonpos.mpr hworth), max_eq_right (neg_nonpos.mpr hworth'), sub_self,
      sub_eq_zero] at hliabilities
    have hmore : valuation.collateral.toRat ≤ valuation'.collateral.toRat := by linarith
    refine ⟨toRat_le_toRat.mp hmore, toRat_inj.mp hliabilities, fun x x' hx hx' => ?_⟩
    exact leverage_le_leverage (View.nonneg_of_value h').liabilities hmore hliabilities.le hx' hx
  · intro hheldNeg
    have hamount : held ≤ 0 := Int.le_of_lt hheldNeg
    have hworth := Line.worth_nonpos hplace hamount hle
    have hworth' := Line.worth_nonpos hplace hamount hle'
    have hfallen := Line.worth_ge_of_price_le hplace hamount hhigher
    rw [max_eq_right hworth, max_eq_right hworth', sub_self, sub_eq_zero] at hcollateral
    rw [max_eq_left (neg_nonneg.mpr hworth), max_eq_left (neg_nonneg.mpr hworth')] at hliabilities
    have hmore : valuation.liabilities.toRat ≤ valuation'.liabilities.toRat := by linarith
    refine ⟨toRat_le_toRat.mp hmore, toRat_inj.mp hcollateral, fun x x' hx hx' => ?_⟩
    exact leverage_le_leverage (View.nonneg_of_value h).liabilities hcollateral.le hmore hx hx'

def trading (price : Int64) (exponent : Int32) : Observed OraclePrice :=
  ⟨⟨4⟩, 0, { (default : OraclePrice) with
    exponent, aggregate := { (default : PriceInfo) with price, status := .trading } }⟩

/-- The endowed account once a token has risen from 3 to 3.5. -/
def repriced (i : Fin marketSlots) : View := endowed.withOracle i (trading 35 (-1))

/-- The account holds 10 of token 2 and owes 40 of token 1, beside open orders and a perpetual
position in market 0. -/
theorem higher_price_moves_one_side_endowed :
    let c : Calculator := ⟨.maintenance, 1⟩
    (c.evaluate 1 endowed).collateral ≤ (c.evaluate 2 (repriced 2)).collateral ∧
      (c.evaluate 2 (repriced 2)).liabilities = (c.evaluate 1 endowed).liabilities ∧
      (c.evaluate 1 endowed).liabilities ≤ (c.evaluate 2 (repriced 1)).liabilities ∧
      (c.evaluate 2 (repriced 1)).collateral = (c.evaluate 1 endowed).collateral ∧
      ∃ x low high, (c.evaluate 1 endowed).leverage = .defined x ∧
        (c.evaluate 2 (repriced 2)).leverage = .defined low ∧
        (c.evaluate 2 (repriced 1)).leverage = .defined high ∧ low ≤ x ∧ x ≤ high := by
  intro c
  have hprice : (trading 3 0).value.TradesAt (whole 3) := ⟨rfl, by decide +kernel⟩
  have hprice' : (trading 35 (-1)).value.TradesAt ⟨7 * scale / 2, by decide, by decide⟩ :=
    ⟨rfl, by decide +kernel⟩
  have hpos : 0 < whole 3 := by decide +kernel
  have hhigher : whole 3 ≤ ⟨7 * scale / 2, by decide, by decide⟩ := by decide +kernel
  have hvalue : (endowed.value .maintenance).isOk = true := by decide +kernel
  have hx : (c.evaluate 1 endowed).leverage = .defined ⟨190 * scale / 185, by decide, by decide⟩ := by
    decide +kernel
  have hlow : (c.evaluate 2 (repriced 2)).leverage =
      .defined ⟨380 * scale / 375, by decide, by decide⟩ := by decide +kernel
  have hhigh : (c.evaluate 2 (repriced 1)).leverage =
      .defined ⟨220 * scale / 185, by decide, by decide⟩ := by decide +kernel
  have hheld : endowed.netBalance 2 0 = .ok (whole 10) := by decide +kernel
  have howed : endowed.netBalance 1 0 = .ok (whole (-40)) := by decide +kernel
  obtain ⟨hrises, _⟩ := higher_price_moves_one_side c (by decide +kernel) (by decide +kernel)
    (by decide +kernel) (by decide +kernel : endowed.oracles.get 2 = some (trading 3 0))
    hprice hprice' hpos hhigher hheld hvalue (by decide +kernel) 1 2
  obtain ⟨_, hfalls⟩ := higher_price_moves_one_side c (by decide +kernel) (by decide +kernel)
    (by decide +kernel) (by decide +kernel : endowed.oracles.get 1 = some (trading 3 0))
    hprice hprice' hpos hhigher howed hvalue (by decide +kernel) 1 2
  obtain ⟨hcollateral, hliabilities, hleverage⟩ := hrises (by decide +kernel)
  obtain ⟨hliabilities', hcollateral', hleverage'⟩ := hfalls (by decide +kernel)
  exact ⟨hcollateral, hliabilities, hliabilities', hcollateral', _, _, _, hx, hlow, hhigh,
    hleverage _ _ hx hlow, hleverage' _ _ hx hhigh⟩

end Calculator

end Solvency
