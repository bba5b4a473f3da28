import Mathlib.Algebra.Order.Field.Power
import Solvency.Account.OraclePrice
import Solvency.Proofs.Fixed.Rounding

/-! Prices given by a whole number and a power of ten. Such a price is exact but for one
truncation where the power of ten, or its inverse, is itself one of the numbers; beyond that
there is no price, although a small one would be in range. -/

namespace Solvency

namespace Fixed

variable {z : Fixed} {q : ℚ}

theorem inRange_iff : InRange q ↔ -2 ^ 79 ≤ q ∧ q ≤ 2 ^ 79 - ulp := by
  have hmin : min.toRat = -2 ^ 79 := by norm_num [toRat, min, bound, ulp, scale]
  have hmax : max.toRat = 2 ^ 79 - ulp := by norm_num [toRat, max, bound, ulp, scale]
  rw [InRange, hmin, hmax]

theorem ulp_le_one : ulp ≤ 1 := by norm_num [ulp, scale]

@[simp] theorem truncate_toRat (x : Fixed) : truncate x.toRat = x.toRat := by
  have hunits := truncate_ratio x.raw 1
  rwa [Int.cast_one, div_one, Int.tdiv_one] at hunits

theorem roundDown_intCast (n : Int) : roundDown n = n := by
  have hunits : (n : ℚ) / ulp = (n * scale : Int) := by
    rw [div_eq_iff ulp_pos.ne', Int.cast_mul, mul_assoc, scale_mul_ulp, mul_one]
  rw [roundDown, hunits, Int.floor_intCast, ← hunits, div_mul_cancel₀ _ ulp_pos.ne']

theorem truncate_intCast (n : Int) : truncate n = n := by
  rw [truncate, roundDown_intCast, ← Int.cast_neg, roundDown_intCast, Int.cast_neg, neg_neg,
    ite_self]

theorem InRange.truncate (h : InRange q) : InRange (truncate q) := by
  rw [InRange, ← truncate_toRat min, ← truncate_toRat max]
  exact ⟨truncate_mono h.1, truncate_mono h.2⟩

theorem inRange_of_abs_lt (h : |q| < 2 ^ 79 - 1) : InRange q := by
  have hbounds := abs_lt.mp h
  have hulp := ulp_le_one
  rw [inRange_iff]
  constructor <;> linarith

theorem not_inRange_truncate (h : 2 ^ 79 + 1 ≤ |q|) : ¬InRange (truncate q) := by
  have herror := abs_lt.mp (truncate_error q)
  have hulp := ulp_le_one
  have hpos := ulp_pos
  rw [inRange_iff]
  rintro ⟨hlow, hhigh⟩
  rcases le_abs'.mp h with hq | hq <;> linarith

theorem exists_ofInt? (n : Int64) : ∃ x, ofInt? n.toInt = some x := by
  have hlow := Int64.le_toInt n
  have hhigh := Int64.toInt_lt n
  have hbound : (2 ^ 63 : Int) * scale ≤ bound := by decide
  exact ⟨_, ofRaw?_eq_some (by simp only [scale] at *; omega) (by simp only [scale] at *; omega)⟩

theorem exists_pow10? (e : Nat) : (∃ x, pow10? e = some x) ↔ e < 24 := by
  have hheld : ∀ e < 24, (pow10? e).isSome := by decide
  rw [← Option.isSome_iff_exists]
  constructor
  · intro h
    by_contra hbeyond
    rw [pow10?, if_neg hbeyond] at h
    cases h
  · exact hheld e

end Fixed

namespace OraclePrice

variable {o : OraclePrice} {z : Fixed}

open Fixed

/-- The aggregate price in quote units, before any rounding. -/
def exactPrice (o : OraclePrice) : ℚ :=
  o.aggregate.price.toInt * 10 ^ o.exponent.toInt

theorem uiPrice?_eq_some_iff : o.uiPrice? = some z ↔
    o.exponent.toInt.natAbs < 24 ∧ z.toRat = truncate o.exactPrice := by
  obtain ⟨mantissa, hmantissa⟩ := exists_ofInt? o.aggregate.price
  have hwhole := toRat_of_ofInt? hmantissa
  rw [← exists_pow10?]
  cases hfactor : pow10? o.exponent.toInt.natAbs with
  | none => simp [uiPrice?, hmantissa, hfactor]
  | some factor =>
    have hten := toRat_of_pow10? hfactor
    have hopen : o.uiPrice? =
        if 0 ≤ o.exponent.toInt then mantissa.mul? factor else mantissa.div? factor := by
      simp [uiPrice?, hmantissa, hfactor]
    rw [hopen, and_iff_right ⟨factor, rfl⟩, exactPrice]
    split
    · rename_i hsign
      -- a product of whole numbers is whole, and is not rounded at all
      have hexact : mantissa.toRat * factor.toRat =
          (o.aggregate.price.toInt * 10 ^ o.exponent.toInt.natAbs : Int) := by
        rw [hwhole, hten]
        push_cast
        rfl
      have hpower : (10 : ℚ) ^ o.exponent.toInt = 10 ^ o.exponent.toInt.natAbs := by
        rw [← zpow_natCast, Int.natAbs_of_nonneg hsign]
      rw [mul?_eq_some_iff, hexact, roundDown_intCast, hpower, ← truncate_intCast]
      push_cast
      rfl
    · rename_i hsign
      have hpower : (10 : ℚ) ^ o.exponent.toInt = (10 ^ o.exponent.toInt.natAbs)⁻¹ := by
        rw [← zpow_natCast, ← zpow_neg, Int.ofNat_natAbs_of_nonpos (by omega), neg_neg]
      have hnonzero : factor ≠ 0 := by
        rw [Ne, ← toRat_eq_zero, hten]
        positivity
      rw [div?_eq_some_iff, and_iff_right hnonzero, hwhole, hten, hpower, div_eq_mul_inv]

theorem uiPrice?_eq_none_iff : o.uiPrice? = none ↔
    24 ≤ o.exponent.toInt.natAbs ∨ ¬InRange (truncate o.exactPrice) := by
  rw [← exists_toRat_eq_truncate, ← Option.not_isSome_iff_eq_none, Option.isSome_iff_exists]
  simp only [uiPrice?_eq_some_iff, exists_and_left, not_and_or, not_lt]

theorem abs_price_le (o : OraclePrice) : |(o.aggregate.price.toInt : ℚ)| ≤ 2 ^ 63 := by
  have hlow := Int64.le_toInt o.aggregate.price
  have hhigh := Int64.toInt_lt o.aggregate.price
  rw [abs_le]
  constructor
  · exact_mod_cast hlow
  · exact_mod_cast hhigh.le

theorem inRange_of_exponent_nonpos (h : o.exponent.toInt ≤ 0) :
    InRange (truncate o.exactPrice) := by
  have hpower : (10 : ℚ) ^ o.exponent.toInt ≤ 1 := zpow_le_one_of_nonpos₀ (by norm_num) h
  have hprice : |o.exactPrice| ≤ 2 ^ 63 := by
    rw [exactPrice, abs_mul, abs_of_pos (by positivity : (0 : ℚ) < 10 ^ o.exponent.toInt)]
    exact (mul_le_of_le_one_right (abs_nonneg _) hpower).trans (abs_price_le o)
  exact (inRange_of_abs_lt (hprice.trans_lt (by norm_num))).truncate

theorem not_inRange_of_exponent_ge (hexponent : 24 ≤ o.exponent.toInt)
    (hprice : o.aggregate.price ≠ 0) : ¬InRange (truncate o.exactPrice) := by
  have hpower : (10 : ℚ) ^ (24 : Int) ≤ 10 ^ o.exponent.toInt :=
    zpow_le_zpow_right₀ (by norm_num) hexponent
  have hwhole : (1 : ℚ) ≤ |(o.aggregate.price.toInt : ℚ)| := by
    have hnonzero : o.aggregate.price.toInt ≠ 0 := fun h => hprice (Int64.toInt_inj.mp h)
    exact_mod_cast Int.one_le_abs hnonzero
  have hexact : (10 : ℚ) ^ (24 : Int) ≤ |o.exactPrice| := by
    rw [exactPrice, abs_mul, abs_of_pos (by positivity : (0 : ℚ) < 10 ^ o.exponent.toInt)]
    exact hpower.trans (le_mul_of_one_le_left (by positivity) hwhole)
  exact not_inRange_truncate (le_trans (by norm_num) hexact)

theorem inRange_of_price_eq_zero (h : o.aggregate.price = 0) :
    InRange (truncate o.exactPrice) := by
  have hexact : o.exactPrice = 0 := by
    simp [exactPrice, h]
  rw [hexact, truncate_zero, ← toRat_zero]
  exact inRange_toRat 0

/-- The price is the exact one truncated once, and it is missing just where that is out of range,
unless the power of ten is not held although the price would be: with more than twenty-three
decimal places, and for zero at an exponent as large. -/
theorem price_truncated_iff_power_held (o : OraclePrice) :
    (∀ z, o.uiPrice? = some z ↔
        o.exponent.toInt.natAbs < 24 ∧ z.toRat = truncate o.exactPrice) ∧
      (((o.uiPrice? = none ↔ ¬InRange (truncate o.exactPrice)) ∧
          ∀ z, o.uiPrice? = some z → z.toRat = truncate o.exactPrice) ↔
        o.exponent.toInt.natAbs < 24 ∨ 0 < o.exponent.toInt ∧ o.aggregate.price ≠ 0) := by
  refine ⟨fun z => uiPrice?_eq_some_iff, ?_⟩
  have hvalue (z : Fixed) (h : o.uiPrice? = some z) : z.toRat = truncate o.exactPrice :=
    (uiPrice?_eq_some_iff.mp h).2
  rw [and_iff_left hvalue, uiPrice?_eq_none_iff, or_iff_right_iff_imp]
  constructor
  · intro h
    by_contra hcon
    rw [not_or, not_and_or, not_lt, not_lt, not_ne_iff] at hcon
    obtain ⟨hbeyond, hnonpos | hzero⟩ := hcon
    · exact h hbeyond (inRange_of_exponent_nonpos hnonpos)
    · exact h hbeyond (inRange_of_price_eq_zero hzero)
  · rintro (hheld | ⟨hpositive, hprice⟩) hbeyond
    · exact absurd hbeyond (Nat.not_le.mpr hheld)
    · exact not_inRange_of_exponent_ge (by omega) hprice

/-- A millionth, given with more decimal places than the powers of ten reach. -/
def millionth : OraclePrice :=
  { (default : OraclePrice) with
    exponent := -24
    aggregate := { (default : PriceInfo) with price := 1000000000000000000 } }

theorem millionth_without_price :
    millionth.uiPrice? = none ∧ InRange (truncate millionth.exactPrice) ∧
      truncate millionth.exactPrice = (⟨281474976, by decide, by decide⟩ : Fixed).toRat := by
  have hprice : millionth.aggregate.price.toInt = 1000000000000000000 := by decide
  have hexponent : millionth.exponent.toInt = -24 := by decide
  have hexact : millionth.exactPrice = 1 / 1000000 := by
    rw [exactPrice, hprice, hexponent]
    norm_num
  refine ⟨by decide, inRange_of_exponent_nonpos (by decide), ?_⟩
  have hfloor : ⌊(281474976710656 : ℚ) / 1000000⌋ = 281474976 := by
    rw [Int.floor_eq_iff]
    norm_num
  rw [hexact, truncate_of_nonneg (by norm_num), roundDown, toRat, ulp, scale]
  norm_num [hfloor]

end OraclePrice

end Solvency
