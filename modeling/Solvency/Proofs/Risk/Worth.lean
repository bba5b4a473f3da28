import Mathlib.Tactic.Linarith
import Solvency.Proofs.Collections
import Solvency.Proofs.Fixed.Rounding
import Solvency.Risk.Valuation

/-! What a position is worth once its orders have filled, beside the exact amount. With
weights that lie around one equally, of two fillings that trade at the price the one that
leaves the larger position is the worse. -/

namespace Solvency

open Fixed

theorem Valued.ofOption_eq_ok_iff {α : Type} {x : Option α} {a : α} :
    Valued.ofOption x = .ok a ↔ x = some a := by
  cases x <;> simp [ofOption]

namespace Fixed

variable {x y z : Fixed}

theorem toRat_of_add (h : x.add y = .ok z) : z.toRat = x.toRat + y.toRat :=
  toRat_of_add? (Valued.ofOption_eq_ok_iff.mp h)

theorem toRat_of_sub (h : x.sub y = .ok z) : z.toRat = x.toRat - y.toRat :=
  toRat_of_sub? (Valued.ofOption_eq_ok_iff.mp h)

theorem toRat_of_abs (h : x.abs = .ok z) : z.toRat = |x.toRat| :=
  toRat_of_abs? (Valued.ofOption_eq_ok_iff.mp h)

theorem toRat_of_ofInt {n : Int} (h : ofInt n = .ok z) : z.toRat = n :=
  toRat_of_ofInt? (Valued.ofOption_eq_ok_iff.mp h)

theorem mul_bounds (h : x.mul y = .ok z) :
    z.toRat ≤ x.toRat * y.toRat ∧ x.toRat * y.toRat < z.toRat + ulp :=
  mul?_bounds (Valued.ofOption_eq_ok_iff.mp h)

theorem div_error (h : x.div y = .ok z) : |x.toRat / y.toRat - z.toRat| < ulp :=
  div?_error (Valued.ofOption_eq_ok_iff.mp h)

theorem toUi_error {decimals : UInt8} (h : x.toUi decimals = .ok z) :
    |x.toRat / 10 ^ decimals.toNat - z.toRat| < ulp :=
  nativeToUi?_error (Valued.ofOption_eq_ok_iff.mp h)

theorem toUi_le {decimals : UInt8} (hx : 0 ≤ x) (h : x.toUi decimals = .ok z) :
    z.toRat ≤ x.toRat / 10 ^ decimals.toNat :=
  nativeToUi?_le hx (Valued.ofOption_eq_ok_iff.mp h)

theorem whole_bounds (n : Int16) : -bound ≤ n.toInt * scale ∧ n.toInt * scale < bound := by
  have hle : -32768 ≤ n.toInt := n.le_toInt
  have hlt : n.toInt < 32768 := n.toInt_lt
  simp only [bound, scale]
  omega

def whole (n : Int16) : Fixed := ⟨n.toInt * scale, (whole_bounds n).1, (whole_bounds n).2⟩

theorem toRat_whole {n : Int16} {k : Int} (h : n.toInt = k) : (whole n).toRat = k := by
  rw [toRat, whole, Int.cast_mul, mul_assoc, scale_mul_ulp, mul_one, h]

/-- Every number has a size but the least one. -/
theorem exists_abs : (∃ z, x.abs = .ok z) ↔ x ≠ .min := by
  have hlow := x.min_le
  have hhigh := x.lt_max
  constructor
  · rintro ⟨z, hz⟩ rfl
    have hnone : Fixed.min.abs? = none := by decide
    rw [Valued.ofOption_eq_ok_iff.mp hz] at hnone
    cases hnone
  · intro hmin
    have hraw : x.raw ≠ -bound := fun hraw => hmin (Fixed.mk.injEq .. ▸ hraw)
    have hsize : (x.raw.natAbs : Int) < bound := by omega
    have hnonneg : -bound ≤ (x.raw.natAbs : Int) := by omega
    exact ⟨_, Valued.ofOption_eq_ok_iff.mpr (ofRaw?_eq_some hnonneg hsize)⟩

end Fixed

theorem abs_mul_le {p d e : ℚ} (hp : 0 ≤ p) (h : |d| ≤ e) : |p * d| ≤ p * e := by
  rw [abs_mul, abs_of_nonneg hp]
  exact mul_le_mul_of_nonneg_left h hp

namespace Weights

/-- The weights lie around one at equal distances. -/
structure Balanced (w : Weights) : Prop where
  asset_nonneg : 0 ≤ w.asset
  asset_le_one : w.asset ≤ 1
  sum : w.asset.toRat + w.liab.toRat = 2

/-- The part of a value that its weight takes away. -/
def haircut (w : Weights) : ℚ := 1 - w.asset.toRat

def weigh (w : Weights) (value : ℚ) : ℚ := value - w.haircut * |value|

/-- Base at a price, weighted, together with quote. -/
def worth (w : Weights) (price : Fixed) (filled : Fixed × Fixed) : Valued Fixed := do
  (← w.apply (← filled.1.mul price)).add filled.2

variable {w : Weights} {price : Fixed}

theorem Balanced.haircut_nonneg (hw : w.Balanced) : 0 ≤ w.haircut := by
  have hone : w.asset.toRat ≤ 1 := toRat_one ▸ toRat_le_toRat.mpr hw.asset_le_one
  rw [haircut]
  linarith

theorem Balanced.haircut_le_one (hw : w.Balanced) : w.haircut ≤ 1 := by
  have hzero : 0 ≤ w.asset.toRat := toRat_nonneg.mpr hw.asset_nonneg
  rw [haircut]
  linarith

/-- A value that grows is worth more, by at most twice as much. -/
theorem Balanced.weigh_sub (hw : w.Balanced) {s t : ℚ} (h : s ≤ t) :
    0 ≤ w.weigh t - w.weigh s ∧ w.weigh t - w.weigh s ≤ 2 * (t - s) := by
  have hnonneg := hw.haircut_nonneg
  have hone := hw.haircut_le_one
  have habs : |(|t| - |s|)| ≤ t - s := by
    rw [← abs_of_nonneg (sub_nonneg.mpr h)]
    exact abs_abs_sub_abs_le_abs_sub t s
  obtain ⟨hlow, hhigh⟩ := abs_le.mp habs
  simp only [weigh]
  constructor <;> nlinarith

theorem Balanced.apply_bounds (hw : w.Balanced) {value weighted : Fixed}
    (h : w.apply value = .ok weighted) :
    weighted.toRat ≤ w.weigh value.toRat ∧ w.weigh value.toRat < weighted.toRat + ulp := by
  have hbounds := mul_bounds h
  suffices hexact : w.weigh value.toRat =
      value.toRat * (if 0 ≤ value then w.asset else w.liab).toRat by rwa [hexact]
  by_cases hvalue : 0 ≤ value
  · rw [if_pos hvalue, weigh, haircut, abs_of_nonneg (toRat_nonneg.mpr hvalue)]
    ring
  · have hneg : value.toRat ≤ 0 := by
      rw [← toRat_zero]
      exact toRat_le_toRat.mpr (Int.le_of_not_le hvalue)
    have hliab : w.liab.toRat = 2 - w.asset.toRat := eq_sub_of_add_eq' hw.sum
    rw [if_neg hvalue, weigh, haircut, abs_of_nonpos hneg, hliab]
    ring

theorem Balanced.worth_bounds (hw : w.Balanced) {filled : Fixed × Fixed} {total : Fixed}
    (h : w.worth price filled = .ok total) :
    total.toRat ≤ w.weigh (filled.1.toRat * price.toRat) + filled.2.toRat ∧
      w.weigh (filled.1.toRat * price.toRat) + filled.2.toRat < total.toRat + 3 * ulp := by
  obtain ⟨value, hvalue, h⟩ := bind_eq_ok_iff.mp h
  obtain ⟨weighted, hweighted, htotal⟩ := bind_eq_ok_iff.mp h
  obtain ⟨hlow, hhigh⟩ := mul_bounds hvalue
  obtain ⟨hweightedLow, hweightedHigh⟩ := hw.apply_bounds hweighted
  obtain ⟨hgrown, hbounded⟩ := hw.weigh_sub hlow
  rw [toRat_of_add htotal]
  constructor <;> linarith

/-- Two fillings whose quote differs by the price of what their base differs by are worth the
same up to the haircut, which is taken of the larger position. -/
theorem Balanced.worth_sub (hw : w.Balanced) {more less : Fixed × Fixed}
    {moreWorth lessWorth : Fixed} (hprice : 0 < price) (hmore : w.worth price more = .ok moreWorth)
    (hless : w.worth price less = .ok lessWorth) {error : ℚ}
    (hquote : |less.2.toRat - more.2.toRat - price.toRat * (more.1.toRat - less.1.toRat)| ≤ error) :
    |moreWorth.toRat - lessWorth.toRat -
        w.haircut * price.toRat * (|less.1.toRat| - |more.1.toRat|)| ≤ error + 3 * ulp := by
  obtain ⟨hmoreLow, hmoreHigh⟩ := hw.worth_bounds hmore
  obtain ⟨hlessLow, hlessHigh⟩ := hw.worth_bounds hless
  obtain ⟨hquoteLow, hquoteHigh⟩ := abs_le.mp hquote
  have hpos := toRat_pos.mpr hprice
  simp only [weigh, abs_mul, abs_of_pos hpos] at hmoreLow hmoreHigh hlessLow hlessHigh
  rw [abs_le]
  constructor <;> linarith

/-- The larger of two positions is worth no more than the smaller one, up to rounding. -/
theorem Balanced.worse_of_larger (hw : w.Balanced) (hprice : 0 < price)
    {moreWorth lessWorth more less rounding : ℚ}
    (h : |moreWorth - lessWorth - w.haircut * price.toRat * (|less| - |more|)| ≤ rounding) :
    (|less| ≤ |more| → moreWorth ≤ lessWorth + rounding) ∧
      (|more| ≤ |less| → lessWorth ≤ moreWorth + rounding) := by
  obtain ⟨hlow, hhigh⟩ := abs_le.mp h
  have hlost : 0 ≤ w.haircut * price.toRat :=
    mul_nonneg hw.haircut_nonneg (toRat_pos.mpr hprice).le
  constructor
  · intro hle
    have hshare := mul_nonneg hlost (sub_nonneg.mpr hle)
    linarith
  · intro hle
    have hshare := mul_nonneg hlost (sub_nonneg.mpr hle)
    linarith

/-- Half of what is held counts, and half more than what is owed. -/
def halved : Weights := ⟨⟨scale / 2, by decide, by decide⟩, ⟨3 * scale / 2, by decide, by decide⟩⟩

theorem balanced_halved : halved.Balanced := by
  refine ⟨by decide, by decide, ?_⟩
  norm_num [halved, toRat, ulp, scale]

end Weights

end Solvency
