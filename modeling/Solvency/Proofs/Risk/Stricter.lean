import Solvency.Proofs.Risk.Totals
import Solvency.Proofs.View.Slots

/-! Stricter weights never make an account look safer. The lines of a view do not depend on
its weights, and what each of them adds moves one way only. -/

namespace Solvency

open Fixed

namespace Weights

/-- Assets count for no more and debts for no less. -/
structure Stricter (w' w : Weights) : Prop where
  asset : w'.asset ≤ w.asset
  liab : w.liab ≤ w'.liab

instance (w' w : Weights) : Decidable (w'.Stricter w) :=
  decidable_of_iff (w'.asset ≤ w.asset ∧ w.liab ≤ w'.liab)
    ⟨fun h => ⟨h.1, h.2⟩, fun h => ⟨h.asset, h.liab⟩⟩

theorem Stricter.weighted_le {w w' : Weights} (h : w'.Stricter w) (value : ℚ) :
    w'.weighted value ≤ w.weighted value := by
  by_cases hvalue : 0 ≤ value
  · rw [weighted, weighted, if_pos hvalue, if_pos hvalue]
    exact roundDown_mono (mul_le_mul_of_nonneg_left (toRat_le_toRat.mpr h.asset) hvalue)
  · rw [weighted, weighted, if_neg hvalue, if_neg hvalue]
    exact roundDown_mono
      (mul_le_mul_of_nonpos_left (toRat_le_toRat.mpr h.liab) (le_of_not_ge hvalue))

end Weights

namespace Valuation

/-- One valuation finds no more collateral and no fewer liabilities than the other. -/
structure Harsher (valuation' valuation : Valuation) : Prop where
  collateral : valuation'.collateral.toRat ≤ valuation.collateral.toRat
  liabilities : valuation.liabilities.toRat ≤ valuation'.liabilities.toRat

end Valuation

def SpotMarketInfo.unweighted (info : SpotMarketInfo) : SpotMarketInfo :=
  { info with
    maintAssetWeight := 0, initAssetWeight := 0, maintLiabWeight := 0, initLiabWeight := 0 }

def PerpMarketInfo.unweighted (info : PerpMarketInfo) : PerpMarketInfo :=
  { info with
    maintAssetWeight := 0, initAssetWeight := 0, maintLiabWeight := 0, initLiabWeight := 0 }

def Group.unweighted (group : Group) : Group :=
  { group with
    spotMarkets := group.spotMarkets.map SpotMarketInfo.unweighted
    perpMarkets := group.perpMarkets.map PerpMarketInfo.unweighted }

namespace View

/-- A view without the weights of its markets. -/
def unweighted (v : View) : View :=
  { v with group := { v.group with value := v.group.value.unweighted } }

theorem marketLines_unweighted (v : View) : v.unweighted.marketLines = v.marketLines := by
  funext i
  have hperp (price : Fixed) : v.unweighted.perpSide i price = v.perpSide i price := by
    simp only [perpSide, unweighted, Group.unweighted, get_map]
    rfl
  simp only [marketLines, hperp]
  rfl

theorem lines_unweighted (v : View) : v.unweighted.lines = v.lines := by
  simp only [lines, marketLines_unweighted]
  rfl

variable {v v' : View} {health health' : HealthType} {valuation valuation' : Valuation}

theorem harsher_of_value (hsame : v.unweighted = v'.unweighted)
    (hstricter : ∀ place, (v'.weights health' place).Stricter (v.weights health place))
    (h : v.value health = .ok valuation) (h' : v'.value health' = .ok valuation') :
    valuation'.Harsher valuation := by
  obtain ⟨lines, hlines, _, hcollateral, hliabilities⟩ := exists_lines h
  obtain ⟨lines', hlines', _, hcollateral', hliabilities'⟩ := exists_lines h'
  rw [← lines_unweighted, hsame, lines_unweighted, hlines'] at hlines
  cases hlines
  have hworth (line : Line) (_ : line ∈ lines) :
      line.worth (v'.weights health') ≤ line.worth (v.weights health) :=
    (hstricter line.place).weighted_le _
  constructor
  · rw [hcollateral, hcollateral']
    exact collateralOf_map_mono hworth
  · rw [hliabilities, hliabilities']
    exact liabilitiesOf_map_anti hworth

end View

namespace Calculator

variable {collateral collateral' liabilities liabilities' x x' : Fixed}

theorem leverage_eq_defined_iff :
    leverage collateral liabilities = .defined x ↔
      (liabilities = 0 ∧ x = 0) ∨
      (liabilities ≠ 0 ∧ 0 < collateral ∧ liabilities.div? collateral = some x) := by
  rw [leverage]
  by_cases hzero : liabilities = 0
  · simp [hzero, eq_comm]
  by_cases hpos : collateral ≤ 0
  · have hnot : ¬ 0 < collateral := Int.not_lt.mpr hpos
    simp [hzero, hpos, hnot]
  · have hlt : 0 < collateral := Int.not_le.mp hpos
    cases liabilities.div? collateral <;> simp [hzero, hpos, hlt]

theorem toRat_of_leverage (hnonneg : 0 ≤ liabilities.toRat)
    (h : leverage collateral liabilities = .defined x) :
    x.toRat = roundDown (liabilities.toRat / collateral.toRat) := by
  rcases leverage_eq_defined_iff.mp h with ⟨rfl, rfl⟩ | ⟨_, hpos, hratio⟩
  · simp
  · rw [(div?_eq_some_iff.mp hratio).2, truncate_of_nonneg]
    exact div_nonneg hnonneg (toRat_pos.mpr hpos).le

/-- Fewer liabilities over more collateral give no more leverage. -/
theorem leverage_le_leverage (hnonneg : 0 ≤ liabilities.toRat)
    (hcollateral : collateral'.toRat ≤ collateral.toRat)
    (hliabilities : liabilities.toRat ≤ liabilities'.toRat)
    (h : leverage collateral liabilities = .defined x)
    (h' : leverage collateral' liabilities' = .defined x') : x ≤ x' := by
  have hnonneg' := hnonneg.trans hliabilities
  rw [← toRat_le_toRat, toRat_of_leverage hnonneg h, toRat_of_leverage hnonneg' h']
  apply roundDown_mono
  rcases leverage_eq_defined_iff.mp h' with ⟨rfl, _⟩ | ⟨_, hpos', _⟩
  · have hzero : liabilities.toRat = 0 := le_antisymm (hliabilities.trans toRat_zero.le) hnonneg
    simp [hzero]
  · exact div_le_div₀ hnonneg' hliabilities (toRat_pos.mpr hpos') hcollateral

theorem capacity_le {capacity capacity' threshold : Fixed} (hthreshold : 0 < threshold)
    (hcollateral : collateral'.toRat ≤ collateral.toRat)
    (h : collateral.mul? threshold = some capacity)
    (h' : collateral'.mul? threshold = some capacity') : capacity' ≤ capacity := by
  rw [← toRat_le_toRat, mul?_eq_some_iff.mp h, mul?_eq_some_iff.mp h']
  exact roundDown_mono (mul_le_mul_of_nonneg_right hcollateral (toRat_pos.mpr hthreshold).le)

theorem isLiquidatable_verdict_iff {c : Calculator} :
    (c.verdict collateral liabilities).isLiquidatable = true ↔
      ∃ capacity, collateral.mul? c.threshold = some capacity ∧ capacity < liabilities := by
  rw [verdict]
  cases collateral.mul? c.threshold with
  | none => simp [Verdict.isLiquidatable]
  | some capacity =>
    by_cases hlt : capacity < liabilities <;> simp [hlt, Verdict.isLiquidatable]

theorem isLiquidatable_of_verdict {c c' : Calculator} (hthreshold : c'.threshold = c.threshold)
    (hpos : 0 < c.threshold) (hcollateral : collateral'.toRat ≤ collateral.toRat)
    (hliabilities : liabilities.toRat ≤ liabilities'.toRat)
    (h : (c.verdict collateral liabilities).isLiquidatable = true)
    (hknown : c'.verdict collateral' liabilities' ≠ .indeterminate) :
    (c'.verdict collateral' liabilities').isLiquidatable = true := by
  obtain ⟨capacity, hcapacity, hlt⟩ := isLiquidatable_verdict_iff.mp h
  cases hcapacity' : collateral'.mul? c'.threshold with
  | none => simp [verdict, hcapacity'] at hknown
  | some capacity' =>
    have hle := capacity_le hpos hcollateral hcapacity (hthreshold ▸ hcapacity')
    have hlt' : capacity' < liabilities' :=
      Int.lt_of_lt_of_le (Int.lt_of_le_of_lt hle hlt) (toRat_le_toRat.mp hliabilities)
    exact isLiquidatable_verdict_iff.mpr ⟨capacity', hcapacity', hlt'⟩

variable {v v' : View} {health health' : HealthType}

/-- Where views differ in their weights only, the one whose weights are stricter in every
market finds no more collateral, no fewer liabilities, no more health and no less leverage,
and it is liquidatable if the other one is. -/
theorem stricter_weights_never_safer (threshold : Fixed) (hsame : v.unweighted = v'.unweighted)
    (hspot : ∀ i, (Weights.spot (v'.group.value.spotMarkets.get i) health').Stricter
      (.spot (v.group.value.spotMarkets.get i) health))
    (hperp : ∀ i, (Weights.perp (v'.group.value.perpMarkets.get i) health').Stricter
      (.perp (v.group.value.perpMarkets.get i) health)) (time time' : Nat) :
    let snapshot := (⟨health, threshold⟩ : Calculator).evaluate time v
    let snapshot' := (⟨health', threshold⟩ : Calculator).evaluate time' v'
    ((v.value health).isOk = true → (v'.value health').isOk = true →
      snapshot'.collateral ≤ snapshot.collateral ∧
      snapshot.liabilities ≤ snapshot'.liabilities ∧ snapshot'.health ≤ snapshot.health) ∧
    (∀ x x', snapshot.leverage = .defined x → snapshot'.leverage = .defined x' → x ≤ x') ∧
    (0 < threshold → snapshot.verdict.isLiquidatable = true →
      snapshot'.verdict ≠ .indeterminate → snapshot'.verdict.isLiquidatable = true) := by
  have hstricter : ∀ place, (v'.weights health' place).Stricter (v.weights health place) := by
    intro place
    cases place with
    | spot i => exact hspot i
    | perp i => exact hperp i
    | quote => exact ⟨Int.le_refl _, Int.le_refl _⟩
  cases h : v.value health with
  | error reason => simp [evaluate, h, Except.isOk, Except.toBool, Verdict.isLiquidatable]
  | ok valuation =>
    cases h' : v'.value health' with
    | error reason => simp [evaluate, h', Except.isOk, Except.toBool]
    | ok valuation' =>
      obtain ⟨hcollateral, hliabilities⟩ := View.harsher_of_value hsame hstricter h h'
      have hnonneg := (View.nonneg_of_value h).liabilities
      simp only [evaluate, h, h']
      refine ⟨fun _ _ => ⟨toRat_le_toRat.mp hcollateral, toRat_le_toRat.mp hliabilities, ?_⟩,
        fun x x' hx hx' => leverage_le_leverage hnonneg hcollateral hliabilities hx hx',
        fun hpos hfirst hknown => ?_⟩
      · exact satSub_le_satSub (toRat_le_toRat.mp hcollateral) (toRat_le_toRat.mp hliabilities)
      · exact isLiquidatable_of_verdict rfl hpos hcollateral hliabilities hfirst hknown

/-- A balance and a long perpetual position in market 0 beside a debt in market 1. -/
def levered (weights : Weights) : View :=
  { (default : View) with
    account := { (default : Observed MarginAccount) with
      value := { (default : MarginAccount) with
        deposits := .ofFn fun i => if i.val = 0 then whole 100 else 0
        borrows := .ofFn fun i => if i.val = 1 then whole 40 else 0
        perpAccounts := .ofFn fun i => if i.val = 0 then
          { (default : PerpAccount) with basePosition := 10, quotePosition := whole (-20) }
        else default } }
    group := { (default : Observed Group) with
      value := { (default : Group) with
        spotMarkets := .ofFn fun _ => { (default : SpotMarketInfo) with
          spotMarket := ⟨9⟩, maintAssetWeight := weights.asset, maintLiabWeight := weights.liab }
        perpMarkets := .ofFn fun _ => { (default : PerpMarketInfo) with
          maintAssetWeight := weights.asset, maintLiabWeight := weights.liab, baseLotSize := 1 } } }
    rootBanks := .ofFn fun _ => some default
    oracles := .ofFn fun i => some ⟨⟨4⟩, 0, { (default : OraclePrice) with
      aggregate := { (default : PriceInfo) with
        price := if i.val = 0 then 2 else 3, status := .trading } }⟩
    perpMarkets := .ofFn fun _ => some default }

theorem stricter_weights_never_safer_levered :
    let snapshot := (⟨.maintenance, Weights.halved.asset⟩ : Calculator).evaluate 1 (levered .unit)
    let snapshot' := (⟨.maintenance, Weights.halved.asset⟩ : Calculator).evaluate 2 (levered .halved)
    snapshot.verdict.isLiquidatable = true ∧ snapshot'.verdict.isLiquidatable = true ∧
      snapshot'.collateral ≤ snapshot.collateral ∧ snapshot.liabilities ≤ snapshot'.liabilities ∧
      snapshot'.health ≤ snapshot.health ∧
      ∃ x x', snapshot.leverage = .defined x ∧ snapshot'.leverage = .defined x' ∧ x ≤ x' := by
  intro snapshot snapshot'
  have hspot : ∀ i, Weights.Stricter
      (.spot ((levered .halved).group.value.spotMarkets.get i) .maintenance)
      (.spot ((levered .unit).group.value.spotMarkets.get i) .maintenance) := by decide +kernel
  have hperp : ∀ i, Weights.Stricter
      (.perp ((levered .halved).group.value.perpMarkets.get i) .maintenance)
      (.perp ((levered .unit).group.value.perpMarkets.get i) .maintenance) := by decide +kernel
  have hsame : (levered .unit).unweighted = (levered .halved).unweighted := by decide +kernel
  have hfirst : snapshot.verdict.isLiquidatable = true := by decide +kernel
  have hknown : snapshot'.verdict ≠ .indeterminate := by decide +kernel
  have hx : snapshot.leverage = .defined ⟨7 * scale / 11, by decide, by decide⟩ := by
    decide +kernel
  have hx' : snapshot'.leverage = .defined ⟨20 * scale / 11, by decide, by decide⟩ := by
    decide +kernel
  obtain ⟨htotals, hleverage, hverdict⟩ :=
    stricter_weights_never_safer Weights.halved.asset hsame hspot hperp 1 2
  obtain ⟨hcollateral, hliabilities, hhealth⟩ := htotals (by decide +kernel) (by decide +kernel)
  exact ⟨hfirst, hverdict (by decide) hfirst hknown, hcollateral, hliabilities, hhealth,
    _, _, hx, hx', hleverage _ _ hx hx'⟩

end Calculator

end Solvency
