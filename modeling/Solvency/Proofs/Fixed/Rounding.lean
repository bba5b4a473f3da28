import Mathlib.Algebra.Order.Floor.Ring
import Mathlib.Data.Rat.Floor
import Mathlib.Tactic.Positivity
import Mathlib.Tactic.Ring
import Solvency.Proofs.Fixed

/-! Rounding of an exact number to a multiple of the last place. A product is the exact one
rounded down and a quotient the exact one rounded toward zero, where these are in range; either
is off by less than a unit. -/

namespace Solvency.Fixed

def roundDown (q : ℚ) : ℚ := ⌊q / ulp⌋ * ulp

/-- Rounded toward zero. -/
def truncate (q : ℚ) : ℚ := if 0 ≤ q then roundDown q else -roundDown (-q)

/-- The range of the numbers. -/
def InRange (q : ℚ) : Prop := min.toRat ≤ q ∧ q ≤ max.toRat

instance (q : ℚ) : Decidable (InRange q) := inferInstanceAs (Decidable (_ ∧ _))

variable {x y z : Fixed} {p q : ℚ}

theorem toRat_inj : x.toRat = y.toRat ↔ x = y := by
  constructor
  · intro h
    obtain ⟨raw, _, _⟩ := x
    obtain ⟨raw', _, _⟩ := y
    rw [toRat, toRat, mul_left_inj' ulp_pos.ne', Int.cast_inj] at h
    cases h
    rfl
  · exact congrArg toRat

theorem toRat_eq_zero : x.toRat = 0 ↔ x = 0 := by
  rw [← toRat_zero, toRat_inj]

theorem pos_iff_ne_zero (h : 0 ≤ x) : 0 < x ↔ x ≠ 0 := by
  rw [← toRat_pos, (toRat_nonneg.mpr h).lt_iff_ne', Ne, toRat_eq_zero]

theorem inRange_toRat (x : Fixed) : InRange x.toRat :=
  ⟨toRat_le_toRat.mpr x.min_le, toRat_le_toRat.mpr (Int.le_sub_one_of_lt x.lt_max)⟩

theorem roundDown_mono (h : p ≤ q) : roundDown p ≤ roundDown q := by
  have hunits : p / ulp ≤ q / ulp := div_le_div_of_nonneg_right h ulp_pos.le
  exact mul_le_mul_of_nonneg_right (Int.cast_le.mpr (Int.floor_le_floor hunits)) ulp_pos.le

theorem roundDown_le (q : ℚ) : roundDown q ≤ q :=
  (le_div_iff₀ ulp_pos).mp (Int.floor_le (q / ulp))

@[simp] theorem roundDown_toRat (x : Fixed) : roundDown x.toRat = x.toRat := by
  rw [roundDown, toRat, mul_div_cancel_right₀ _ ulp_pos.ne', Int.floor_intCast]

@[simp] theorem roundDown_zero : roundDown 0 = 0 := by
  rw [← toRat_zero, roundDown_toRat]

theorem roundDown_nonneg (h : 0 ≤ q) : 0 ≤ roundDown q :=
  roundDown_zero ▸ roundDown_mono h

theorem roundDown_nonpos (h : q ≤ 0) : roundDown q ≤ 0 :=
  (roundDown_le q).trans h

theorem lt_roundDown_add_ulp (q : ℚ) : q < roundDown q + ulp := by
  rw [roundDown, ← add_one_mul]
  exact (div_lt_iff₀ ulp_pos).mp (Int.lt_floor_add_one (q / ulp))

/-- A number is below the rounded value only if it is below the exact one. -/
theorem toRat_le_roundDown : x.toRat ≤ roundDown q ↔ x.toRat ≤ q := by
  constructor
  · intro h
    exact h.trans (roundDown_le q)
  · intro h
    rw [← roundDown_toRat x]
    exact roundDown_mono h

theorem roundDown_lt_toRat : roundDown q < x.toRat ↔ q < x.toRat := by
  rw [← not_le, ← not_le, toRat_le_roundDown]

/-- Nothing lies between zero and one unit. -/
theorem ulp_le_toRat (h : 0 < x) : ulp ≤ x.toRat := by
  have hraw : (1 : ℚ) ≤ x.raw := by exact_mod_cast h
  rw [toRat]
  exact le_mul_of_one_le_left ulp_pos.le hraw

theorem truncate_of_nonneg (h : 0 ≤ q) : truncate q = roundDown q :=
  if_pos h

theorem truncate_mono (h : p ≤ q) : truncate p ≤ truncate q := by
  rw [truncate, truncate]
  split <;> rename_i hp <;> split <;> rename_i hq
  · exact roundDown_mono h
  · exact absurd (hp.trans h) hq
  · have hneg : 0 ≤ roundDown (-p) := roundDown_nonneg (neg_nonneg.mpr (le_of_not_ge hp))
    exact (neg_nonpos.mpr hneg).trans (roundDown_nonneg hq)
  · exact neg_le_neg (roundDown_mono (neg_le_neg h))

theorem truncate_le (h : 0 ≤ q) : truncate q ≤ q := by
  rw [truncate_of_nonneg h]
  exact roundDown_le q

/-- Whatever the sign, less than a unit is lost. -/
theorem truncate_error (q : ℚ) : |q - truncate q| < ulp := by
  have hdown (p : ℚ) : |p - roundDown p| < ulp := by
    rw [abs_of_nonneg (sub_nonneg.mpr (roundDown_le p)), sub_lt_iff_lt_add']
    exact lt_roundDown_add_ulp p
  rw [truncate]
  split
  · exact hdown q
  · rw [sub_neg_eq_add, ← abs_neg, neg_add, ← sub_eq_add_neg]
    exact hdown (-q)

@[simp] theorem truncate_zero : truncate 0 = 0 := by
  rw [truncate_of_nonneg le_rfl, roundDown_zero]

theorem ofRaw?_eq_some_iff {raw : Int} : ofRaw? raw = some z ↔ z.raw = raw := by
  constructor
  · exact raw_of_ofRaw?
  · rintro rfl
    exact ofRaw?_eq_some z.min_le z.lt_max

theorem toRat_eq_cast_mul_ulp {raw : Int} : z.toRat = raw * ulp ↔ z.raw = raw := by
  rw [toRat, mul_left_inj' ulp_pos.ne', Int.cast_inj]

/-- A multiple of the unit is one of the numbers if it is in their range. -/
theorem exists_toRat_eq_units {n : Int} : (∃ x : Fixed, x.toRat = n * ulp) ↔ InRange (n * ulp) := by
  constructor
  · rintro ⟨x, hx⟩
    exact hx ▸ inRange_toRat x
  · rintro ⟨hlow, hhigh⟩
    rw [toRat, mul_le_mul_iff_left₀ ulp_pos, Int.cast_le] at hlow hhigh
    exact ⟨⟨n, hlow, Int.lt_of_le_sub_one hhigh⟩, rfl⟩

theorem exists_toRat_eq_roundDown :
    (∃ x : Fixed, x.toRat = roundDown q) ↔ InRange (roundDown q) :=
  exists_toRat_eq_units

theorem exists_toRat_eq_truncate :
    (∃ x : Fixed, x.toRat = truncate q) ↔ InRange (truncate q) := by
  rw [truncate]
  split
  · exact exists_toRat_eq_roundDown
  · rw [roundDown, ← neg_mul, ← Int.cast_neg]
    exact exists_toRat_eq_units

theorem roundDown_ratio (m : Int) {n : Int} (hn : 0 ≤ n) :
    roundDown ((m : ℚ) / n * ulp) = (m / n : Int) * ulp := by
  rw [roundDown, mul_div_cancel_right₀ _ ulp_pos.ne', Int.floor_div_cast_of_nonneg hn,
    Int.floor_intCast]

theorem truncate_neg (q : ℚ) : truncate (-q) = -truncate q := by
  rcases lt_trichotomy q 0 with hq | rfl | hq
  · rw [truncate, truncate, if_pos (neg_nonneg.mpr hq.le), if_neg hq.not_ge, neg_neg]
  · simp
  · rw [truncate, truncate, if_neg (neg_lt_zero.mpr hq).not_ge, if_pos hq.le, neg_neg]

theorem truncate_ratio (m n : Int) : truncate ((m : ℚ) / n * ulp) = (m.tdiv n : Int) * ulp := by
  have hnonneg (m n : Int) (hm : 0 ≤ m) (hn : 0 ≤ n) :
      truncate ((m : ℚ) / n * ulp) = (m.tdiv n : Int) * ulp := by
    have hvalue : 0 ≤ (m : ℚ) / n * ulp :=
      mul_nonneg (div_nonneg (Int.cast_nonneg hm) (Int.cast_nonneg hn)) ulp_pos.le
    rw [truncate_of_nonneg hvalue, roundDown_ratio m hn, Int.tdiv_eq_ediv_of_nonneg hm]
  have hnumerator (m n : Int) (hn : 0 ≤ n) :
      truncate ((m : ℚ) / n * ulp) = (m.tdiv n : Int) * ulp := by
    rcases le_total 0 m with hm | hm
    · exact hnonneg m n hm hn
    · have hflipped := hnonneg (-m) n (Int.neg_nonneg.mpr hm) hn
      rw [Int.cast_neg, neg_div, neg_mul, truncate_neg, Int.neg_tdiv, Int.cast_neg,
        neg_mul] at hflipped
      exact neg_inj.mp hflipped
  rcases le_total 0 n with hn | hn
  · exact hnumerator m n hn
  · have hflipped := hnumerator m (-n) (Int.neg_nonneg.mpr hn)
    rw [Int.cast_neg, div_neg, neg_mul, truncate_neg, Int.tdiv_neg, Int.cast_neg,
      neg_mul] at hflipped
    exact neg_inj.mp hflipped

theorem mul?_eq_some_iff : x.mul? y = some z ↔ z.toRat = roundDown (x.toRat * y.toRat) := by
  have hscale : (0 : Int) ≤ scale := by decide
  have hproduct : x.toRat * y.toRat = ((x.raw * y.raw : Int) : ℚ) / scale * ulp := by
    rw [toRat, toRat, Int.cast_mul, ulp]
    ring
  rw [mul?, ofRaw?_eq_some_iff, hproduct, roundDown_ratio _ hscale, toRat_eq_cast_mul_ulp,
    Int.fdiv_eq_ediv_of_nonneg _ hscale]

theorem mul?_bounds (h : x.mul? y = some z) :
    z.toRat ≤ x.toRat * y.toRat ∧ x.toRat * y.toRat < z.toRat + ulp := by
  rw [mul?_eq_some_iff.mp h]
  exact ⟨roundDown_le _, lt_roundDown_add_ulp _⟩

theorem div?_eq_some_iff :
    x.div? y = some z ↔ y ≠ 0 ∧ z.toRat = truncate (x.toRat / y.toRat) := by
  have hzero : y.raw = 0 ↔ y = 0 := by
    rw [← toRat_eq_zero, toRat, mul_eq_zero, Int.cast_eq_zero]
    exact (or_iff_left ulp_pos.ne').symm
  rw [div?, toRat_div_toRat, truncate_ratio, toRat_eq_cast_mul_ulp]
  by_cases hy : y.raw = 0
  · rw [if_pos hy]
    exact iff_of_false (Option.some_ne_none z).symm fun h => h.1 (hzero.mp hy)
  · rw [if_neg hy, ofRaw?_eq_some_iff]
    exact (and_iff_right (mt hzero.mpr hy)).symm

theorem div?_eq_none_iff :
    x.div? y = none ↔ y = 0 ∨ ¬ InRange (truncate (x.toRat / y.toRat)) := by
  rw [← exists_toRat_eq_truncate, ← Option.not_isSome_iff_eq_none, Option.isSome_iff_exists]
  simp only [div?_eq_some_iff, exists_and_left, not_and_or, not_not]

theorem div?_error (h : x.div? y = some z) : |x.toRat / y.toRat - z.toRat| < ulp := by
  rw [(div?_eq_some_iff.mp h).2]
  exact truncate_error _

theorem toRat_of_nativeToUi? {decimals : Nat} (h : x.nativeToUi? decimals = some z) :
    z.toRat = truncate (x.toRat / 10 ^ decimals) := by
  obtain ⟨ten, hten, hz⟩ := Option.bind_eq_some_iff.mp h
  rw [← toRat_of_pow10? hten]
  exact (div?_eq_some_iff.mp hz).2

theorem nativeToUi?_error {decimals : Nat} (h : x.nativeToUi? decimals = some z) :
    |x.toRat / 10 ^ decimals - z.toRat| < ulp := by
  rw [toRat_of_nativeToUi? h]
  exact truncate_error _

theorem nativeToUi?_le {decimals : Nat} (hx : 0 ≤ x) (h : x.nativeToUi? decimals = some z) :
    z.toRat ≤ x.toRat / 10 ^ decimals := by
  rw [toRat_of_nativeToUi? h]
  exact truncate_le (div_nonneg (toRat_nonneg.mpr hx) (by positivity))

/-- The difference of numbers that are not negative is in range. -/
theorem toRat_satSub (hx : 0 ≤ x) (hy : 0 ≤ y) : (x.satSub y).toRat = x.toRat - y.toRat := by
  have hraw : (x.satSub y).raw = x.raw - y.raw := by
    have hlow : 0 ≤ x.raw := hx
    have hlow' : 0 ≤ y.raw := hy
    have hhigh := x.lt_max
    have hhigh' := y.lt_max
    rw [raw_satSub]
    omega
  rw [toRat, hraw, Int.cast_sub, sub_mul]
  rfl

end Solvency.Fixed
