import Solvency.Proofs.Risk.Rows
import Solvency.Proofs.Risk.Supply
import Solvency.Proofs.Risk.Verdict

/-! An account that could not be valued has no verdict, and it can be told from its snapshot. The
converse holds while the collateral times the threshold stays in range; beyond it an account that
was valued has no verdict either, although nothing that it can owe exceeds its capacity. -/

namespace Solvency

open Fixed Solvency.Valued

/-- What is seen of an account that was not valued. -/
structure Snapshot.Unvalued (s : Snapshot) : Prop where
  positions : s.positions = []
  collateral : s.collateral = 0
  liabilities : s.liabilities = 0
  health : s.health = 0
  leverage : ∃ reason ∈ [.nonPositivePrice, .incompleteView, .overflow],
    s.leverage = .undefined reason

namespace View

variable {v : View} {health : HealthType}

theorem failsOnly_price (v : View) (i : Fin marketSlots) :
    FailsOnly (· ≠ .zeroCollateral) (v.price i) := by
  have hop (x : Option Fixed) : FailsOnly (· ≠ .zeroCollateral) (ofOption x) :=
    failsOnly_ofOption nofun x
  cases horacle : v.oracles.get i <;> simp [View.price, horacle, hop]

/-- Only the totals of a valuation can lack collateral, never the valuation itself. -/
theorem reason_of_value {reason : UndefinedReason} (h : v.value health = .error reason) :
    reason ∈ [.nonPositivePrice, .incompleteView, .overflow] := by
  have hreason := failsOnly_value nofun (fun _ _ _ => nofun) (fun i _ => v.failsOnly_price i)
    (fun _ _ _ => nofun) health reason h
  cases reason with
  | zeroCollateral => exact absurd rfl hreason
  | nonPositivePrice | overflow | incompleteView => simp

end View

namespace Calculator

variable {c : Calculator} {time : Nat} {v : View} {collateral liabilities : Fixed}

theorem isBlank_of_value {reason : UndefinedReason} (h : v.value c.healthType = .error reason) :
    (c.evaluate time v).IsBlank reason := by
  simp only [evaluate, h]
  exact ⟨rfl, rfl, rfl, rfl, rfl, rfl⟩

theorem unvalued_of_value {reason : UndefinedReason} (h : v.value c.healthType = .error reason) :
    (c.evaluate time v).Unvalued := by
  obtain ⟨hcollateral, hliabilities, hhealth, hpositions, hleverage, _⟩ := isBlank_of_value h
  exact ⟨hpositions, hcollateral, hliabilities, hhealth, reason, View.reason_of_value h, hleverage⟩

theorem not_unvalued_of_value {valuation : Valuation} (h : v.value c.healthType = .ok valuation) :
    ¬ (c.evaluate time v).Unvalued := by
  rintro ⟨_, _, hliabilities, _, reason, _, hleverage⟩
  -- without liabilities leverage is defined, whatever the collateral
  simp only [evaluate, h] at hliabilities hleverage
  rw [leverage, if_pos hliabilities] at hleverage
  cases hleverage

theorem verdict_eq_indeterminate_iff :
    c.verdict collateral liabilities = .indeterminate ↔
      ¬ InRange (roundDown (collateral.toRat * c.threshold.toRat)) := by
  rw [← exists_toRat_eq_roundDown, verdict]
  simp only [← mul?_eq_some_iff]
  cases collateral.mul? c.threshold with
  | none => simp
  | some capacity => by_cases hlt : capacity < liabilities <;> simp [hlt]

/-- Whatever is owed stays below a capacity that is out of range. -/
theorem lt_capacity_of_not_inRange (hthreshold : 0 < c.threshold) (hcollateral : 0 ≤ collateral)
    (h : ¬ InRange (roundDown (collateral.toRat * c.threshold.toRat))) (liabilities : Fixed) :
    liabilities.toRat < collateral.toRat * c.threshold.toRat := by
  have hnonneg := roundDown_nonneg (capacity_nonneg hthreshold hcollateral)
  have hlow : Fixed.min.toRat ≤ roundDown (collateral.toRat * c.threshold.toRat) :=
    (toRat_nonpos.mpr (by decide)).trans hnonneg
  have hbeyond := lt_of_not_ge fun hhigh => h ⟨hlow, hhigh⟩
  exact (inRange_toRat liabilities).2.trans_lt (hbeyond.trans_le (roundDown_le _))

/-- While the capacity is in range, an account is without a verdict exactly if it was not valued.
Beyond it an account that was valued has none either, although its capacity exceeds what it
owes. -/
theorem indeterminate_iff_unvalued_in_range (c : Calculator) (time : Nat) (v : View)
    (hthreshold : 0 < c.threshold) :
    let snapshot := c.evaluate time v
    let capacity := snapshot.collateral.toRat * c.threshold.toRat
    ((v.value c.healthType).isOk = false ↔ snapshot.Unvalued) ∧
    (InRange (roundDown capacity) → (snapshot.verdict = .indeterminate ↔ snapshot.Unvalued)) ∧
    (¬ InRange (roundDown capacity) → snapshot.verdict = .indeterminate ∧ ¬ snapshot.Unvalued ∧
      snapshot.liabilities.toRat < capacity) := by
  intro snapshot capacity
  cases h : v.value c.healthType with
  | error reason =>
    have hblank : snapshot.IsBlank reason := isBlank_of_value h
    have hunvalued : snapshot.Unvalued := unvalued_of_value h
    have hcapacity : InRange (roundDown capacity) := by
      simp only [capacity, snapshot, hblank.collateral, toRat_zero, zero_mul, roundDown_zero]
      exact toRat_zero ▸ inRange_toRat 0
    exact ⟨iff_of_true rfl hunvalued, fun _ => iff_of_true hblank.verdict hunvalued,
      fun hbeyond => absurd hcapacity hbeyond⟩
  | ok valuation =>
    have hvalued : ¬ snapshot.Unvalued := not_unvalued_of_value h
    obtain ⟨hcollateral, _⟩ := View.nonneg_of_value h
    have hverdict : snapshot.verdict = .indeterminate ↔ ¬ InRange (roundDown capacity) := by
      simp only [capacity, snapshot, evaluate, h]
      exact verdict_eq_indeterminate_iff
    refine ⟨iff_of_false Bool.false_ne_true.symm hvalued, fun hrange => iff_of_false ?_ hvalued,
      fun hbeyond => ?_⟩
    · exact fun hindeterminate => hverdict.mp hindeterminate hrange
    · refine ⟨hverdict.mpr hbeyond, hvalued, ?_⟩
      simp only [capacity, snapshot, evaluate, h] at hbeyond ⊢
      exact lt_capacity_of_not_inRange hthreshold (toRat_nonneg.mp hcollateral) hbeyond _

/-- A deposit of `2 ^ 78` of the quote token, and no debt. -/
def hoard : View :=
  { (default : View) with
    account := { (default : Observed MarginAccount) with
      value := { (default : MarginAccount) with
        deposits := (default : MarginAccount).deposits.set 15 ⟨2 ^ 126, by decide, by decide⟩ } }
    rootBanks := .ofFn fun _ => some default }

/-- Twice the collateral is out of range, so at a threshold of two there is no verdict. -/
theorem hoard_without_verdict :
    let c : Calculator := ⟨.maintenance, whole 2⟩
    0 < c.threshold ∧ (hoard.value c.healthType).isOk = true ∧
      (c.evaluate 1 hoard).leverage = .defined 0 ∧ (c.evaluate 1 hoard).verdict = .indeterminate := by
  decide +kernel

theorem indeterminate_iff_unvalued_in_range_hoard :
    let snapshot := (⟨.maintenance, 1⟩ : Calculator).evaluate 1 hoard
    let snapshot' := (⟨.maintenance, whole 2⟩ : Calculator).evaluate 1 hoard
    (snapshot.verdict = .indeterminate ↔ snapshot.Unvalued) ∧
      snapshot'.verdict = .indeterminate ∧ ¬ snapshot'.Unvalued ∧
      snapshot'.liabilities.toRat < snapshot'.collateral.toRat * (whole 2).toRat := by
  intro snapshot snapshot'
  obtain ⟨_, hinside, _⟩ :=
    indeterminate_iff_unvalued_in_range ⟨.maintenance, 1⟩ 1 hoard (by decide +kernel)
  obtain ⟨_, _, hbeyond⟩ :=
    indeterminate_iff_unvalued_in_range ⟨.maintenance, whole 2⟩ 1 hoard (by decide +kernel)
  exact ⟨hinside (by decide +kernel), hbeyond (by decide +kernel)⟩

end Calculator

end Solvency
