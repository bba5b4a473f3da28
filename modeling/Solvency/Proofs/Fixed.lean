import Mathlib.Algebra.Order.Field.Basic
import Mathlib.Data.Rat.Cast.Order
import Solvency.Fixed

/-! Fixed-point numbers as exact fractions. Their order is that of the fractions, and sums and
differences in range are exact. -/

namespace Solvency.Fixed

/-- One unit of the last place. -/
def ulp : ℚ := 1 / scale

def toRat (x : Fixed) : ℚ := x.raw * ulp

variable {x y z : Fixed}

theorem ulp_pos : 0 < ulp := by
  simp [ulp, scale]

theorem scale_mul_ulp : (scale : ℚ) * ulp = 1 := by
  simp [ulp, scale]

@[simp] theorem toRat_zero : (0 : Fixed).toRat = 0 := by
  have hraw : (0 : Fixed).raw = 0 := rfl
  simp [toRat, hraw]

@[simp] theorem toRat_one : (1 : Fixed).toRat = 1 := scale_mul_ulp

theorem toRat_le_toRat : x.toRat ≤ y.toRat ↔ x ≤ y := by
  rw [toRat, toRat, mul_le_mul_iff_left₀ ulp_pos, Int.cast_le]
  rfl

theorem toRat_lt_toRat : x.toRat < y.toRat ↔ x < y := by
  rw [toRat, toRat, mul_lt_mul_iff_left₀ ulp_pos, Int.cast_lt]
  rfl

theorem toRat_nonneg : 0 ≤ x.toRat ↔ 0 ≤ x := by
  rw [← toRat_zero, toRat_le_toRat]

theorem toRat_nonpos : x.toRat ≤ 0 ↔ x ≤ 0 := by
  rw [← toRat_zero, toRat_le_toRat]

theorem toRat_pos : 0 < x.toRat ↔ 0 < x := by
  rw [← toRat_zero, toRat_lt_toRat]

/-- Numbers that are not apart by a unit are in order. -/
theorem le_of_lt_add_ulp (h : x.toRat < y.toRat + ulp) : x ≤ y := by
  have hraw : (x.raw : ℚ) < y.raw + 1 := by
    rw [toRat, toRat, ← add_one_mul] at h
    exact lt_of_mul_lt_mul_right h ulp_pos.le
  exact Int.lt_add_one_iff.mp (by exact_mod_cast hraw)

theorem nonneg_of_pos_add_ulp (h : 0 < x.toRat + ulp) : 0 ≤ x := by
  rw [← toRat_zero] at h
  exact le_of_lt_add_ulp h

theorem ofRaw?_eq_some {raw : Int} (hle : -bound ≤ raw) (hlt : raw < bound) :
    ofRaw? raw = some ⟨raw, hle, hlt⟩ :=
  dif_pos ⟨hle, hlt⟩

theorem raw_of_ofRaw? {raw : Int} (h : ofRaw? raw = some z) : z.raw = raw := by
  rw [ofRaw?] at h
  split at h
  · exact congrArg Fixed.raw (Option.some.inj h).symm
  · cases h

theorem toRat_of_add? (h : x.add? y = some z) : z.toRat = x.toRat + y.toRat := by
  rw [toRat, raw_of_ofRaw? h, Int.cast_add, add_mul]
  rfl

theorem toRat_of_sub? (h : x.sub? y = some z) : z.toRat = x.toRat - y.toRat := by
  rw [toRat, raw_of_ofRaw? h, Int.cast_sub, sub_mul]
  rfl

theorem toRat_of_ofInt? {n : Int} (h : ofInt? n = some z) : z.toRat = n := by
  rw [toRat, raw_of_ofRaw? h, Int.cast_mul, mul_assoc, scale_mul_ulp, mul_one]

theorem toRat_of_abs? (h : x.abs? = some z) : z.toRat = |x.toRat| := by
  rw [toRat, raw_of_ofRaw? h, toRat, abs_mul, abs_of_pos ulp_pos]
  simp

theorem toRat_div_toRat (x y : Fixed) :
    x.toRat / y.toRat = ((x.raw * scale : Int) : ℚ) / y.raw * ulp := by
  rw [toRat, toRat, mul_div_mul_right _ _ ulp_pos.ne', Int.cast_mul, mul_div_right_comm,
    mul_assoc, scale_mul_ulp, mul_one]

theorem toRat_of_pow10? {e : Nat} (h : pow10? e = some z) : z.toRat = 10 ^ e := by
  rw [pow10?] at h
  split at h
  · rw [toRat_of_ofInt? h, Int.cast_natCast]
    exact Nat.cast_pow 10 e
  · cases h

theorem raw_satSub (x y : Fixed) :
    (x.satSub y).raw = Max.max (-bound) (Min.min (bound - 1) (x.raw - y.raw)) := by
  have hbound : (0 : Int) < bound := by decide
  by_cases hrange : -bound ≤ x.raw - y.raw ∧ x.raw - y.raw < bound
  · have hsub : x.sub? y = some ⟨x.raw - y.raw, hrange.1, hrange.2⟩ := dif_pos hrange
    rw [satSub, hsub, Option.getD_some]
    refine Eq.trans (b := x.raw - y.raw) rfl ?_
    omega
  · have hsub : x.sub? y = none := dif_neg hrange
    rw [satSub, hsub, Option.getD_none]
    by_cases hlt : x.raw < y.raw
    · refine Eq.trans (b := -bound) (congrArg raw (if_pos hlt)) ?_
      omega
    · refine Eq.trans (b := bound - 1) (congrArg raw (if_neg hlt)) ?_
      omega

theorem satSub_le_satSub {x x' y y' : Fixed} (hx : x' ≤ x) (hy : y ≤ y') :
    x'.satSub y' ≤ x.satSub y := by
  have hraw : x'.raw - y'.raw ≤ x.raw - y.raw := Int.sub_le_sub hx hy
  change (x'.satSub y').raw ≤ (x.satSub y).raw
  rw [raw_satSub, raw_satSub]
  omega

end Solvency.Fixed
