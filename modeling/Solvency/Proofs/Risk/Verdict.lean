import Solvency.Proofs.Risk.Stricter

/-! The verdict compares the liabilities with a capacity that was rounded down. It is the
comparison with the exact capacity all the same, and the rounded leverage agrees with it. -/

namespace Solvency.Calculator

open Fixed

variable {c : Calculator} {collateral liabilities x : Fixed}

theorem capacity_nonneg (hthreshold : 0 < c.threshold) (hcollateral : 0 ≤ collateral) :
    0 ≤ collateral.toRat * c.threshold.toRat :=
  mul_nonneg (toRat_nonneg.mpr hcollateral) (toRat_pos.mpr hthreshold).le

theorem liquidatable_of_lt (hthreshold : 0 < c.threshold) (hcollateral : 0 ≤ collateral)
    (hrange : InRange (roundDown (collateral.toRat * c.threshold.toRat)))
    (h : collateral.toRat * c.threshold.toRat < liabilities.toRat) :
    ∃ shortfall, c.verdict collateral liabilities = .liquidatable shortfall ∧
      shortfall.toRat = liabilities.toRat - roundDown (collateral.toRat * c.threshold.toRat) ∧
      ulp ≤ shortfall.toRat := by
  obtain ⟨capacity, hcapacity⟩ := exists_toRat_eq_roundDown.mpr hrange
  have hnonneg : 0 ≤ capacity :=
    toRat_nonneg.mp (hcapacity ▸ roundDown_nonneg (capacity_nonneg hthreshold hcollateral))
  -- no number lies between the rounded capacity and the exact one
  have hlt : capacity < liabilities := by
    rw [← toRat_lt_toRat, hcapacity]
    exact roundDown_lt_toRat.mpr h
  have hliabilities : 0 ≤ liabilities := Int.le_of_lt (Int.lt_of_le_of_lt hnonneg hlt)
  have hshortfall := toRat_satSub hliabilities hnonneg
  refine ⟨liabilities.satSub capacity, ?_, hcapacity ▸ hshortfall, ?_⟩
  · rw [verdict, mul?_eq_some_iff.mpr hcapacity]
    exact if_pos hlt
  · apply ulp_le_toRat
    rw [← toRat_pos, hshortfall, sub_pos]
    exact toRat_lt_toRat.mpr hlt

theorem safe_of_le (hliabilities : 0 ≤ liabilities)
    (hrange : InRange (roundDown (collateral.toRat * c.threshold.toRat)))
    (h : liabilities.toRat ≤ collateral.toRat * c.threshold.toRat) :
    ∃ headroom, c.verdict collateral liabilities = .safe headroom ∧
      headroom.toRat = roundDown (collateral.toRat * c.threshold.toRat) - liabilities.toRat ∧
      0 ≤ headroom.toRat := by
  obtain ⟨capacity, hcapacity⟩ := exists_toRat_eq_roundDown.mpr hrange
  have hle : liabilities ≤ capacity := by
    rw [← toRat_le_toRat, hcapacity]
    exact toRat_le_roundDown.mpr h
  have hheadroom := toRat_satSub (Int.le_trans hliabilities hle) hliabilities
  refine ⟨capacity.satSub liabilities, ?_, hcapacity ▸ hheadroom, ?_⟩
  · rw [verdict, mul?_eq_some_iff.mpr hcapacity]
    exact if_neg (Int.not_lt.mpr hle)
  · rw [hheadroom, sub_nonneg]
    exact toRat_le_toRat.mpr hle

theorem lt_of_leverage (hthreshold : 0 < c.threshold) (hliabilities : 0 ≤ liabilities)
    (h : leverage collateral liabilities = .defined x) (hx : c.threshold < x) :
    collateral.toRat * c.threshold.toRat < liabilities.toRat := by
  have hrounded := toRat_of_leverage (toRat_nonneg.mpr hliabilities) h
  have hratio : c.threshold.toRat < liabilities.toRat / collateral.toRat :=
    (toRat_lt_toRat.mpr hx).trans_le (hrounded.trans_le (roundDown_le _))
  rcases leverage_eq_defined_iff.mp h with ⟨_, rfl⟩ | ⟨_, hpos, _⟩
  · exact absurd hthreshold (Int.not_lt.mpr (Int.le_of_lt hx))
  · rwa [lt_div_iff₀ (toRat_pos.mpr hpos), mul_comm] at hratio

theorem le_leverage (hthreshold : 0 < c.threshold) (hcollateral : 0 ≤ collateral)
    (h : leverage collateral liabilities = .defined x)
    (hlt : collateral.toRat * c.threshold.toRat < liabilities.toRat) : c.threshold ≤ x := by
  have hliabilities : 0 < liabilities :=
    toRat_pos.mp ((capacity_nonneg hthreshold hcollateral).trans_lt hlt)
  rcases leverage_eq_defined_iff.mp h with ⟨rfl, _⟩ | ⟨_, hpos, _⟩
  · exact absurd hliabilities (Int.lt_irrefl _)
  · rw [← toRat_le_toRat, toRat_of_leverage (toRat_pos.mpr hliabilities).le h,
      toRat_le_roundDown, le_div_iff₀ (toRat_pos.mpr hpos), mul_comm]
    exact hlt.le

/-- An account is liquidatable exactly if its liabilities exceed the exact capacity, by however
little. The shortfall and the headroom are exact distances from the rounded capacity, and a
leverage on one side of the threshold is never contradicted. -/
theorem verdict_exact {v : View} (hthreshold : 0 < c.threshold)
    (hvalue : (v.value c.healthType).isOk = true) (time : Nat) :
    let snapshot := c.evaluate time v
    let capacity := snapshot.collateral.toRat * c.threshold.toRat
    InRange (roundDown capacity) →
    (snapshot.verdict.isLiquidatable = true ↔ capacity < snapshot.liabilities.toRat) ∧
    (capacity < snapshot.liabilities.toRat → ∃ shortfall,
      snapshot.verdict = .liquidatable shortfall ∧
      shortfall.toRat = snapshot.liabilities.toRat - roundDown capacity ∧
      ulp ≤ shortfall.toRat) ∧
    (snapshot.liabilities.toRat ≤ capacity → ∃ headroom,
      snapshot.verdict = .safe headroom ∧
      headroom.toRat = roundDown capacity - snapshot.liabilities.toRat ∧
      0 ≤ headroom.toRat) ∧
    ∀ x, snapshot.leverage = .defined x →
      (c.threshold < x → snapshot.verdict.isLiquidatable = true) ∧
      (snapshot.verdict.isLiquidatable = true → c.threshold ≤ x) := by
  intro snapshot capacity hrange
  obtain ⟨valuation, h⟩ := exists_of_isOk hvalue
  obtain ⟨hcollateral, hliabilities⟩ := View.nonneg_of_value h
  rw [toRat_nonneg] at hcollateral hliabilities
  simp only [capacity, snapshot, evaluate, h] at hrange ⊢
  have hliquidatable
      (hlt : valuation.collateral.toRat * c.threshold.toRat < valuation.liabilities.toRat) :=
    liquidatable_of_lt hthreshold hcollateral hrange hlt
  have hsafe := safe_of_le hliabilities hrange
  have hverdict : (c.verdict valuation.collateral valuation.liabilities).isLiquidatable = true ↔
      valuation.collateral.toRat * c.threshold.toRat < valuation.liabilities.toRat := by
    constructor
    · intro hverdict
      by_contra hle
      obtain ⟨headroom, hheadroom, _⟩ := hsafe (le_of_not_gt hle)
      rw [hheadroom] at hverdict
      cases hverdict
    · intro hlt
      obtain ⟨shortfall, hshortfall, _⟩ := hliquidatable hlt
      rw [hshortfall]
      rfl
  refine ⟨hverdict, hliquidatable, hsafe, fun x hx => ⟨fun habove => ?_, fun hfound => ?_⟩⟩
  · exact hverdict.mpr (lt_of_leverage hthreshold hliabilities hx habove)
  · exact le_leverage hthreshold hcollateral hx (hverdict.mp hfound)

/-- Liabilities of 140 over a collateral of 220 exceed the leverage that they are rounded to, and
do not exceed the next number. -/
theorem verdict_exact_levered :
    let c : Calculator := ⟨.maintenance, ⟨7 * scale / 11, by decide, by decide⟩⟩
    let c' : Calculator := ⟨.maintenance, ⟨7 * scale / 11 + 1, by decide, by decide⟩⟩
    let snapshot := c.evaluate 1 (levered .unit)
    let snapshot' := c'.evaluate 1 (levered .unit)
    snapshot.leverage = .defined c.threshold ∧
      (∃ shortfall, snapshot.verdict = .liquidatable shortfall ∧
        shortfall.toRat = snapshot.liabilities.toRat -
          roundDown (snapshot.collateral.toRat * c.threshold.toRat) ∧ ulp ≤ shortfall.toRat) ∧
      ∃ headroom, snapshot'.verdict = .safe headroom ∧
        headroom.toRat = roundDown (snapshot'.collateral.toRat * c'.threshold.toRat) -
          snapshot'.liabilities.toRat ∧ 0 ≤ headroom.toRat := by
  intro c c' snapshot snapshot'
  have hvalue : ((levered .unit).value .maintenance).isOk = true := by decide +kernel
  have hrange : InRange (roundDown (snapshot.collateral.toRat * c.threshold.toRat)) := by
    decide +kernel
  have hrange' : InRange (roundDown (snapshot'.collateral.toRat * c'.threshold.toRat)) := by
    decide +kernel
  have hleverage : snapshot.leverage = .defined c.threshold := by decide +kernel
  obtain ⟨_, hliquidatable, _⟩ := verdict_exact (c := c) (by decide) hvalue 1 hrange
  obtain ⟨_, _, hsafe, _⟩ := verdict_exact (c := c') (by decide) hvalue 1 hrange'
  exact ⟨hleverage, hliquidatable (by decide +kernel), hsafe (by decide +kernel)⟩

end Solvency.Calculator
