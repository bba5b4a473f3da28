import Solvency.Proofs.Fixed.Decimal

/-! Amounts in the smallest unit of a token and in whole tokens. The way to whole tokens rounds
toward zero and the way back is exact: whatever went to whole tokens comes back without the
remainder of the division, and whatever came from whole tokens goes back unchanged. -/

namespace Solvency.Fixed

variable {x u y : Fixed} {d : Nat}

/-- Greater arguments do not give smaller results, where there are results. -/
def Ascending (f : Fixed → Option Fixed) : Prop :=
  ∀ x x' y y', x ≤ x' → f x = some y → f x' = some y' → y ≤ y'

theorem toRat_div_ten_pow (x : Fixed) (d : Nat) :
    x.toRat / 10 ^ d = (x.raw : ℚ) / (10 ^ d : Int) * ulp := by
  rw [toRat, Int.cast_pow, Int.cast_ofNat, mul_div_right_comm]

theorem abs_toRat (x : Fixed) : |x.toRat| = x.raw.natAbs * ulp := by
  rw [toRat, abs_mul, abs_of_pos ulp_pos, Nat.cast_natAbs, Int.cast_abs]

theorem nativeToUi?_eq_some_iff : x.nativeToUi? d = some u ↔
    d < 24 ∧ u.raw = x.raw.tdiv (10 ^ d) := by
  rw [← exists_pow10?]
  cases hpower : pow10? d with
  | none => simp [nativeToUi?, hpower]
  | some power =>
    have hten := toRat_of_pow10? hpower
    have hopen : x.nativeToUi? d = x.div? power := by simp [nativeToUi?, hpower]
    have hnonzero : power ≠ 0 := by
      rw [Ne, ← toRat_eq_zero, hten]
      positivity
    rw [hopen, div?_eq_some_iff, hten, toRat_div_ten_pow, truncate_ratio, toRat_eq_cast_mul_ulp,
      and_iff_right hnonzero, and_iff_right ⟨power, rfl⟩]

theorem uiToNative?_eq_some_iff : u.uiToNative? d = some y ↔
    d < 24 ∧ y.raw = u.raw * 10 ^ d := by
  rw [← exists_pow10?]
  cases hpower : pow10? d with
  | none => simp [uiToNative?, hpower]
  | some power =>
    -- a power of ten is a whole number, so the product needs no rounding
    have hproduct : u.toRat * power.toRat = ((u.raw * 10 ^ d : Int) : ℚ) / (1 : Int) * ulp := by
      rw [toRat_of_pow10? hpower, toRat]
      push_cast
      ring
    have hopen : u.uiToNative? d = u.mul? power := by simp [uiToNative?, hpower]
    rw [hopen, mul?_eq_some_iff, hproduct, roundDown_ratio _ Int.one_nonneg, Int.ediv_one,
      toRat_eq_cast_mul_ulp, and_iff_right ⟨power, rfl⟩]

/-- Nothing out of range lies between zero and one of the numbers. -/
theorem exists_raw_of_natAbs_le {n : Int} (hsize : n.natAbs ≤ x.raw.natAbs)
    (hsign : n = 0 ∨ n.sign = x.raw.sign) : ∃ z : Fixed, z.raw = n := by
  have hlow := x.min_le
  have hhigh := x.lt_max
  have hbetween : 0 ≤ n ∧ n ≤ x.raw ∨ x.raw ≤ n ∧ n ≤ 0 := by
    rcases hsign with rfl | hsign
    · omega
    · have hn := Int.sign_mul_natAbs n
      rw [hsign] at hn
      rcases lt_trichotomy x.raw 0 with hx | hx | hx
      · rw [Int.sign_eq_neg_one_of_neg hx] at hn
        omega
      · omega
      · rw [Int.sign_eq_one_of_pos hx] at hn
        omega
  exact ⟨⟨n, by omega, by omega⟩, rfl⟩

theorem sign_tdiv_of_pos (m : Int) {n : Int} (hn : 0 < n) :
    m.tdiv n = 0 ∨ (m.tdiv n).sign = m.sign := by
  rw [← Int.sign_eq_zero_iff_zero, Int.sign_tdiv, Int.sign_eq_one_of_pos hn, mul_one]
  split
  · exact .inl rfl
  · exact .inr rfl

theorem exists_nativeToUi? (x : Fixed) (hd : d < 24) : ∃ u, x.nativeToUi? d = some u := by
  have hten : (0 : Int) < 10 ^ d := by positivity
  obtain ⟨u, hu⟩ := exists_raw_of_natAbs_le (Int.natAbs_tdiv_le_natAbs x.raw (10 ^ d))
    (sign_tdiv_of_pos x.raw hten)
  exact ⟨u, nativeToUi?_eq_some_iff.mpr ⟨hd, hu⟩⟩

/-- What does not come back is the remainder of the division. -/
theorem uiToNative?_of_nativeToUi? (h : x.nativeToUi? d = some u) :
    ∃ y, u.uiToNative? d = some y ∧ (y = 0 ∨ y.raw.sign = x.raw.sign) ∧
      |y.toRat| ≤ |x.toRat| ∧ |x.toRat| - |y.toRat| < 10 ^ d * ulp := by
  obtain ⟨hd, hu⟩ := nativeToUi?_eq_some_iff.mp h
  have hten : (0 : Int) < 10 ^ d := by positivity
  have hsize : (u.raw * 10 ^ d).natAbs = x.raw.natAbs / 10 ^ d * 10 ^ d := by
    rw [hu, Int.natAbs_mul, Int.natAbs_tdiv, Int.natAbs_pow]
    rfl
  have hle : (u.raw * 10 ^ d).natAbs ≤ x.raw.natAbs := hsize ▸ Nat.div_mul_le_self _ _
  have hlost : x.raw.natAbs < 10 ^ d + (u.raw * 10 ^ d).natAbs := by
    rw [hsize, Nat.add_comm]
    exact Nat.lt_div_mul_add (by positivity)
  have hsign : u.raw * 10 ^ d = 0 ∨ (u.raw * 10 ^ d).sign = x.raw.sign := by
    rw [Int.sign_mul, Int.sign_eq_one_of_pos hten, mul_one, hu]
    exact (sign_tdiv_of_pos x.raw hten).imp_left fun hzero => by rw [hzero, zero_mul]
  obtain ⟨y, hy⟩ := exists_raw_of_natAbs_le hle hsign
  have hback : u.uiToNative? d = some y := uiToNative?_eq_some_iff.mpr ⟨hd, hy⟩
  rw [← hy] at hle hlost hsign
  refine ⟨y, hback, hsign.imp_left fun hzero => ?_, ?_, ?_⟩
  · rw [← toRat_eq_zero, toRat, hzero, Int.cast_zero, zero_mul]
  · rw [abs_toRat, abs_toRat]
    exact mul_le_mul_of_nonneg_right (by exact_mod_cast hle) ulp_pos.le
  · rw [abs_toRat, abs_toRat, sub_lt_iff_lt_add, ← add_mul]
    exact mul_lt_mul_of_pos_right (by exact_mod_cast hlost) ulp_pos

theorem nativeToUi?_of_uiToNative? (h : u.uiToNative? d = some y) : y.nativeToUi? d = some u := by
  obtain ⟨hd, hy⟩ := uiToNative?_eq_some_iff.mp h
  refine nativeToUi?_eq_some_iff.mpr ⟨hd, ?_⟩
  rw [hy, Int.mul_tdiv_cancel _ (by positivity)]

theorem ascending_nativeToUi? (d : Nat) : Ascending (nativeToUi? · d) := by
  intro x x' u u' hx hu hu'
  have hten : (0 : Int) < 10 ^ d := by positivity
  show u.raw ≤ u'.raw
  rw [(nativeToUi?_eq_some_iff.mp hu).2, (nativeToUi?_eq_some_iff.mp hu').2]
  exact Int.tdiv_le_tdiv hten hx

theorem ascending_uiToNative? (d : Nat) : Ascending (uiToNative? · d) := by
  intro u u' y y' hu hy hy'
  have hten : (0 : Int) ≤ 10 ^ d := by positivity
  show y.raw ≤ y'.raw
  rw [(uiToNative?_eq_some_iff.mp hy).2, (uiToNative?_eq_some_iff.mp hy').2]
  exact Int.mul_le_mul_of_nonneg_right hu hten

/-- With up to twenty-three places every amount goes to whole tokens, rounded toward zero, and
comes back with its sign and short of less than `10 ^ d` units of the last place; both ways keep
the order, and what came from whole tokens goes back unchanged. With more places there is no way
in either direction. -/
theorem conversions_round_trip (d : Nat) :
    (d ≤ 23 →
      (∀ x : Fixed, ∃ u y : Fixed,
        x.nativeToUi? d = some u ∧ u.toRat = truncate (x.toRat / 10 ^ d) ∧
        u.uiToNative? d = some y ∧ (y = 0 ∨ y.raw.sign = x.raw.sign) ∧
        |y.toRat| ≤ |x.toRat| ∧ |x.toRat| - |y.toRat| < 10 ^ d * ulp) ∧
      Ascending (nativeToUi? · d) ∧ Ascending (uiToNative? · d) ∧
      ∀ u y : Fixed, u.uiToNative? d = some y → y.nativeToUi? d = some u) ∧
    (24 ≤ d → ∀ x : Fixed, x.nativeToUi? d = none ∧ x.uiToNative? d = none) := by
  refine ⟨fun hd => ⟨fun x => ?_, ascending_nativeToUi? d, ascending_uiToNative? d,
    fun u y => nativeToUi?_of_uiToNative?⟩, fun hd x => ⟨?_, ?_⟩⟩
  · obtain ⟨u, hu⟩ := exists_nativeToUi? x (Nat.lt_succ_of_le hd)
    obtain ⟨y, hy⟩ := uiToNative?_of_nativeToUi? hu
    exact ⟨u, y, hu, toRat_of_nativeToUi? hu, hy⟩
  · refine Option.eq_none_iff_forall_ne_some.mpr fun u hu => ?_
    exact Nat.not_lt.mpr hd (nativeToUi?_eq_some_iff.mp hu).1
  · refine Option.eq_none_iff_forall_ne_some.mpr fun y hy => ?_
    exact Nat.not_lt.mpr hd (uiToNative?_eq_some_iff.mp hy).1

/-- The most places that there is a way for. What comes back of the least number is a multiple of
`10 ^ 23`, and both ways keep it below one whole token, which comes back unchanged. -/
theorem conversions_round_trip_least : 23 ≤ 23 ∧ 24 ≤ 24 ∧
    (∃ u y z : Fixed, min.nativeToUi? 23 = some u ∧ u.toRat = truncate (min.toRat / 10 ^ 23) ∧
      u.uiToNative? 23 = some y ∧ (y = 0 ∨ y.raw.sign = min.raw.sign) ∧
      |y.toRat| ≤ |min.toRat| ∧ |min.toRat| - |y.toRat| < 10 ^ 23 * ulp ∧
      uiToNative? 1 23 = some z ∧ z.nativeToUi? 23 = some 1 ∧ min ≤ z ∧ u ≤ 1 ∧ y ≤ z) ∧
    min.nativeToUi? 24 = none ∧ min.uiToNative? 24 = none := by
  obtain ⟨hways, hup, hdown, hback⟩ := (conversions_round_trip 23).1 (by decide)
  obtain ⟨u, y, hu, htruncated, hy, hsign, hle, hlost⟩ := hways min
  let z : Fixed := ⟨scale * 10 ^ 23, by decide, by decide⟩
  have hz : uiToNative? 1 23 = some z := uiToNative?_eq_some_iff.mpr ⟨by decide, rfl⟩
  have hone : z.nativeToUi? 23 = some 1 := hback 1 z hz
  have hmin : min ≤ z := by decide
  have hbelow : u ≤ 1 := hup min z u 1 hmin hu hone
  exact ⟨by decide, by decide, ⟨u, y, z, hu, htruncated, hy, hsign, hle, hlost, hz, hone, hmin,
    hbelow, hdown u 1 y z hbelow hy hz⟩, (conversions_round_trip 24).2 (by decide) min⟩

end Solvency.Fixed
