import Solvency.Proofs.Risk.Stricter

/-! What rounding takes from the rows of a snapshot. The value of a row and its weighted value are
both rounded down, so that a row never counts for more than it is worth, and for less by no more
than its weight and one in units of the last place. The health adds that up. -/

namespace Solvency

open Fixed

/-- A value that was rounded down before its weight was applied. -/
theorem Weights.Nonneg.weighted_bounds {w : Weights} (hw : w.Nonneg)
    {amount price value weighted : Fixed} (hvalue : amount.mul price = .ok value)
    (hweighted : w.apply value = .ok weighted) :
    let weight := (if 0 ≤ value then w.asset else w.liab).toRat
    weighted.toRat ≤ amount.toRat * price.toRat * weight ∧
      amount.toRat * price.toRat * weight < weighted.toRat + (weight + 1) * ulp := by
  intro weight
  obtain ⟨hvalueLow, hvalueHigh⟩ := mul_bounds hvalue
  obtain ⟨hweightedLow, hweightedHigh⟩ := mul_bounds hweighted
  have hnonneg : 0 ≤ weight := by
    apply toRat_nonneg.mpr
    split
    · exact hw.asset
    · exact hw.liab
  constructor
  · exact hweightedLow.trans (mul_le_mul_of_nonneg_right hvalueLow hnonneg)
  · calc amount.toRat * price.toRat * weight
        ≤ (value.toRat + ulp) * weight := mul_le_mul_of_nonneg_right hvalueHigh.le hnonneg
      _ = value.toRat * weight + weight * ulp := by ring
      _ < weighted.toRat + ulp + weight * ulp := by gcongr
      _ = weighted.toRat + (weight + 1) * ulp := by ring

namespace View

/-- The weights of the market that a row is labelled with. -/
def rowWeights (v : View) (health : HealthType) (row : Position) : Weights :=
  match row.kind with
  | .spot => v.group.value.spotMarkets[row.index]?.elim .unit (.spot · health)
  | .perp => v.group.value.perpMarkets[row.index]?.elim .unit (.perp · health)
  | .quote => .unit

def rowWeight (v : View) (health : HealthType) (row : Position) : ℚ :=
  (if 0 ≤ row.value then (v.rowWeights health row).asset else (v.rowWeights health row).liab).toRat

/-- What a row is worth exactly. -/
def rowWorth (v : View) (health : HealthType) (row : Position) : ℚ :=
  row.amount.toRat * row.price.toRat * v.rowWeight health row

variable {v : View} {health : HealthType} {valuation : Valuation}

theorem rowWeights_of_rowOf {line : Line} {row : Position}
    (h : Valuation.RowOf (v.weights health) line row) :
    v.rowWeights health row = v.weights health line.place := by
  rw [rowWeights, h.kind, h.index]
  cases line.place <;> simp [Place.kind, Place.index, weights, Vector.get]

structure NonnegWeights (v : View) (health : HealthType) : Prop where
  spot : ∀ i, (Weights.spot (v.group.value.spotMarkets.get i) health).Nonneg
  perp : ∀ i, (Weights.perp (v.group.value.perpMarkets.get i) health).Nonneg

theorem NonnegWeights.weights (h : v.NonnegWeights health) (place : Place) :
    (v.weights health place).Nonneg := by
  have hunit : Weights.unit.Nonneg := by decide
  cases place with
  | spot i => exact h.spot i
  | perp i => exact h.perp i
  | quote => exact hunit

theorem NonnegWeights.row_bounds (h : v.NonnegWeights health)
    (hvalue : v.value health = .ok valuation) {row : Position} (hrow : row ∈ valuation.positions) :
    row.weighted.toRat ≤ v.rowWorth health row ∧
      v.rowWorth health row < row.weighted.toRat + (v.rowWeight health row + 1) * ulp := by
  obtain ⟨_, _, hrows, _⟩ := exists_lines hvalue
  obtain ⟨line, _, hline⟩ := Valuation.exists_line_of_mem hrows hrow
  have hbounds := (h.weights line.place).weighted_bounds hline.value hline.weighted
  rw [rowWorth, rowWeight, rowWeights_of_rowOf hline, hline.amount, hline.price]
  exact hbounds

end View

namespace Calculator

/-- No row counts for more than its exact worth, nor for less by as much as its weight and one in
units of the last place, and the health is that close to the exact sum of the rows. -/
theorem rows_rounded_down (c : Calculator) {v : View} (hweights : v.NonnegWeights c.healthType)
    (hvalue : (v.value c.healthType).isOk = true) (time : Nat) :
    let snapshot := c.evaluate time v
    let weight := v.rowWeight c.healthType
    let worth := v.rowWorth c.healthType
    (∀ row ∈ snapshot.positions, row.weighted.toRat ≤ worth row ∧
      worth row < row.weighted.toRat + (weight row + 1) * ulp) ∧
    snapshot.health.toRat ≤ (snapshot.positions.map worth).sum ∧
    (snapshot.positions.map worth).sum ≤
      snapshot.health.toRat + (snapshot.positions.map fun row => (weight row + 1) * ulp).sum := by
  intro snapshot weight worth
  obtain ⟨valuation, h⟩ := exists_of_isOk hvalue
  have hrows (row : Position) (hrow : row ∈ valuation.positions) := hweights.row_bounds h hrow
  simp only [snapshot, evaluate, h]
  refine ⟨hrows, ?_, ?_⟩
  · rw [View.health_of_value h]
    exact List.sum_le_sum fun row hrow => (hrows row hrow).1
  · rw [View.health_of_value h, ← List.sum_map_add]
    exact List.sum_le_sum fun row hrow => (hrows row hrow).2.le

/-- A third of one token and two thirds owed of another, at a price of 3.33 and with weights of
nine and eleven tenths. -/
def fractional : View :=
  let v := levered ⟨⟨9 * scale / 10, by decide, by decide⟩, ⟨11 * scale / 10, by decide, by decide⟩⟩
  { v with
    account := { v.account with
      value := { v.account.value with
        deposits := .ofFn fun i => if i.val = 0 then ⟨scale / 3, by decide, by decide⟩ else 0
        borrows := .ofFn fun i => if i.val = 1 then ⟨2 * scale / 3, by decide, by decide⟩ else 0 } }
    oracles := .ofFn fun _ => some ⟨⟨4⟩, 0, { (default : OraclePrice) with
      exponent := -2
      aggregate := { (default : PriceInfo) with price := 333, status := .trading } }⟩ }

theorem rows_rounded_down_fractional :
    let snapshot := (⟨.maintenance, 1⟩ : Calculator).evaluate 1 fractional
    let worth := (snapshot.positions.map (fractional.rowWorth .maintenance)).sum
    snapshot.positions.map Position.kind = [.spot, .perp, .spot, .quote] ∧
      snapshot.health.toRat < worth ∧ worth ≤ snapshot.health.toRat +
        (snapshot.positions.map fun row => (fractional.rowWeight .maintenance row + 1) * ulp).sum := by
  intro snapshot worth
  have hweights : fractional.NonnegWeights .maintenance := ⟨by decide +kernel, by decide +kernel⟩
  obtain ⟨_, _, hshort⟩ := rows_rounded_down ⟨.maintenance, 1⟩ hweights (by decide +kernel) 1
  exact ⟨by decide +kernel, by decide +kernel, hshort⟩

end Calculator

end Solvency
