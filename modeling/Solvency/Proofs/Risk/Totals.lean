import Mathlib.Algebra.BigOperators.Fin
import Mathlib.Algebra.Order.BigOperators.Group.List
import Mathlib.Algebra.Order.Group.MinMax
import Mathlib.Data.List.Forall2
import Solvency.Proofs.Risk.Lines

/-! What a valuation adds up to. Its totals are sums over the lines of the markets and the quote,
each of which counts with its weighted value: as collateral where that is not negative, as a
liability where it is. -/

namespace Solvency

open Fixed

namespace Fixed

variable {x y z : Fixed}

theorem toRat_of_mul (h : x.mul y = .ok z) : z.toRat = roundDown (x.toRat * y.toRat) :=
  mul?_eq_some_iff.mp (Valued.ofOption_eq_ok_iff.mp h)

theorem toRat_of_toUi {decimals : UInt8} (h : x.toUi decimals = .ok z) :
    z.toRat = truncate (x.toRat / 10 ^ decimals.toNat) :=
  toRat_of_nativeToUi? (Valued.ofOption_eq_ok_iff.mp h)

theorem toRat_of_foldlM_add {xs : List Fixed} (h : xs.foldlM Fixed.add x = .ok z) :
    z.toRat = x.toRat + (xs.map toRat).sum := by
  induction xs generalizing x with
  | nil =>
    cases pure_eq_ok_iff.mp h
    simp
  | cons y rest ih =>
    rw [List.foldlM_cons] at h
    obtain ⟨next, hnext, hrest⟩ := bind_eq_ok_iff.mp h
    rw [ih hrest, toRat_of_add hnext, List.map_cons, List.sum_cons, add_assoc]

end Fixed

/-- The part of weighted values that counts as collateral. -/
def collateralOf (worths : List ℚ) : ℚ := (worths.map (max · 0)).sum

/-- The part of weighted values that counts as liabilities. -/
def liabilitiesOf (worths : List ℚ) : ℚ := (worths.map fun worth => max (-worth) 0).sum

section Totals

variable {α : Type}

theorem collateralOf_append (worths worths' : List ℚ) :
    collateralOf (worths ++ worths') = collateralOf worths + collateralOf worths' := by
  simp [collateralOf]

theorem liabilitiesOf_append (worths worths' : List ℚ) :
    liabilitiesOf (worths ++ worths') = liabilitiesOf worths + liabilitiesOf worths' := by
  simp [liabilitiesOf]

theorem collateralOf_perm {worths worths' : List ℚ} (h : worths.Perm worths') :
    collateralOf worths = collateralOf worths' :=
  (h.map _).sum_eq

theorem liabilitiesOf_perm {worths worths' : List ℚ} (h : worths.Perm worths') :
    liabilitiesOf worths = liabilitiesOf worths' :=
  (h.map _).sum_eq

theorem collateralOf_eq_sum_filter (worths : List ℚ) :
    collateralOf worths = (worths.filter (0 ≤ ·)).sum := by
  induction worths with
  | nil => rfl
  | cons worth rest ih =>
    rw [collateralOf, List.map_cons, List.sum_cons, ← collateralOf, ih]
    by_cases h : 0 ≤ worth
    · simp [h]
    · simp [h, le_of_not_ge h]

theorem liabilitiesOf_eq_neg_sum_filter (worths : List ℚ) :
    liabilitiesOf worths = -(worths.filter (· < 0)).sum := by
  induction worths with
  | nil => rfl
  | cons worth rest ih =>
    rw [liabilitiesOf, List.map_cons, List.sum_cons, ← liabilitiesOf, ih]
    by_cases h : worth < 0
    · simp [h, h.le, add_comm]
    · simp [h, le_of_not_gt h]

theorem collateralOf_sub_liabilitiesOf (worths : List ℚ) :
    collateralOf worths - liabilitiesOf worths = worths.sum := by
  induction worths with
  | nil => simp [collateralOf, liabilitiesOf]
  | cons worth rest ih =>
    rw [collateralOf, liabilitiesOf, List.map_cons, List.map_cons, List.sum_cons, List.sum_cons,
      ← collateralOf, ← liabilitiesOf, add_sub_add_comm, ih, List.sum_cons,
      max_zero_sub_max_neg_zero_eq_self]

theorem collateralOf_nonneg (worths : List ℚ) : 0 ≤ collateralOf worths := by
  apply List.sum_nonneg
  simp

theorem liabilitiesOf_nonneg (worths : List ℚ) : 0 ≤ liabilitiesOf worths := by
  apply List.sum_nonneg
  simp

theorem collateralOf_map_mono {xs : List α} {f g : α → ℚ} (h : ∀ x ∈ xs, f x ≤ g x) :
    collateralOf (xs.map f) ≤ collateralOf (xs.map g) := by
  rw [collateralOf, collateralOf, List.map_map, List.map_map]
  exact List.sum_le_sum fun x hx => max_le_max_right 0 (h x hx)

theorem liabilitiesOf_map_anti {xs : List α} {f g : α → ℚ} (h : ∀ x ∈ xs, f x ≤ g x) :
    liabilitiesOf (xs.map g) ≤ liabilitiesOf (xs.map f) := by
  rw [liabilitiesOf, liabilitiesOf, List.map_map, List.map_map]
  exact List.sum_le_sum fun x hx => max_le_max_right 0 (neg_le_neg (h x hx))

theorem sum_flatMap_finRange {n : Nat} (f : Fin n → List α) (g : α → ℚ) :
    (((List.finRange n).flatMap f).map g).sum = ∑ i, ((f i).map g).sum := by
  rw [Fin.sum_univ_def, List.map_flatMap, List.flatMap_def, List.sum_flatten, List.map_map]
  rfl

end Totals

namespace Weights

/-- A value under its weight, rounded down. -/
def weighted (w : Weights) (value : ℚ) : ℚ :=
  roundDown (value * (if 0 ≤ value then w.asset else w.liab).toRat)

structure Nonneg (w : Weights) : Prop where
  asset : 0 ≤ w.asset
  liab : 0 ≤ w.liab

instance (w : Weights) : Decidable w.Nonneg :=
  decidable_of_iff (0 ≤ w.asset ∧ 0 ≤ w.liab)
    ⟨fun h => ⟨h.1, h.2⟩, fun h => ⟨h.asset, h.liab⟩⟩

variable {w : Weights}

theorem toRat_of_apply {value weighted : Fixed} (h : w.apply value = .ok weighted) :
    weighted.toRat = w.weighted value.toRat := by
  rw [toRat_of_mul h, Weights.weighted]
  simp only [toRat_nonneg]

@[simp] theorem weighted_zero (w : Weights) : w.weighted 0 = 0 := by
  simp [weighted]

theorem Nonneg.weighted_nonneg (hw : w.Nonneg) {value : ℚ} (h : 0 ≤ value) :
    0 ≤ w.weighted value := by
  rw [weighted, if_pos h]
  exact roundDown_nonneg (mul_nonneg h (toRat_nonneg.mpr hw.asset))

theorem Nonneg.weighted_nonpos (hw : w.Nonneg) {value : ℚ} (h : value ≤ 0) :
    w.weighted value ≤ 0 := by
  rcases h.lt_or_eq with hneg | rfl
  · rw [weighted, if_neg hneg.not_ge]
    exact roundDown_nonpos (mul_nonpos_of_nonpos_of_nonneg h (toRat_nonneg.mpr hw.liab))
  · exact (weighted_zero w).le

/-- A value that grows never weighs less. -/
theorem Nonneg.weighted_mono (hw : w.Nonneg) {value value' : ℚ} (h : value ≤ value') :
    w.weighted value ≤ w.weighted value' := by
  rcases le_total 0 value with hvalue | hvalue
  · rw [weighted, weighted, if_pos hvalue, if_pos (hvalue.trans h)]
    exact roundDown_mono (mul_le_mul_of_nonneg_right h (toRat_nonneg.mpr hw.asset))
  rcases le_or_gt 0 value' with hvalue' | hvalue'
  · exact (hw.weighted_nonpos hvalue).trans (hw.weighted_nonneg hvalue')
  · rw [weighted, weighted, if_neg hvalue'.not_ge, if_neg (h.trans_lt hvalue').not_ge]
    exact roundDown_mono (mul_le_mul_of_nonneg_right h (toRat_nonneg.mpr hw.liab))

end Weights

namespace Line

/-- The weighted value of a line. -/
def worth (weights : Place → Weights) (line : Line) : ℚ :=
  (weights line.place).weighted (roundDown (line.amount.toRat * line.price.toRat))

variable {weights : Place → Weights} {line : Line}

theorem worth_of_amount (h : line.amount = 0) : line.worth weights = 0 := by
  simp [worth, h]

theorem sum_unlessZero {f : ℚ → ℚ} (hf : f 0 = 0) :
    ((line.unlessZero.map (worth weights)).map f).sum = f (line.worth weights) := by
  by_cases h : line.amount = 0
  · simp [unlessZero, h, worth_of_amount h, hf]
  · simp [unlessZero, h]

theorem collateralOf_unlessZero :
    collateralOf (line.unlessZero.map (worth weights)) = max (line.worth weights) 0 :=
  sum_unlessZero (max_self 0)

theorem liabilitiesOf_unlessZero :
    liabilitiesOf (line.unlessZero.map (worth weights)) = max (-line.worth weights) 0 :=
  sum_unlessZero (by simp)

end Line

namespace Valuation

variable {weights : Place → Weights} {valuation after : Valuation} {lines : List Line}

theorem RowOf.weighted_eq {line : Line} {row : Position} (h : RowOf weights line row) :
    row.weighted.toRat = line.worth weights := by
  rw [Weights.toRat_of_apply h.weighted, toRat_of_mul h.value]
  rfl

theorem map_weighted {rows : List Position} (h : List.Forall₂ (RowOf weights) lines rows) :
    rows.map (·.weighted.toRat) = lines.map (Line.worth weights) := by
  induction h with
  | nil => rfl
  | cons hrow _ ih => rw [List.map_cons, List.map_cons, hrow.weighted_eq, ih]

/-- Every line that was entered has its row. -/
theorem exists_row_of_mem {rows : List Position} (h : List.Forall₂ (RowOf weights) lines rows)
    {line : Line} (hline : line ∈ lines) : ∃ row ∈ rows, RowOf weights line row := by
  obtain ⟨i, hi, rfl⟩ := List.mem_iff_getElem.mp hline
  have hi' : i < rows.length := h.length_eq ▸ hi
  exact ⟨rows[i], List.getElem_mem hi', h.get hi hi'⟩

theorem exists_line_of_mem {rows : List Position} (h : List.Forall₂ (RowOf weights) lines rows)
    {row : Position} (hrow : row ∈ rows) : ∃ line ∈ lines, RowOf weights line row := by
  obtain ⟨i, hi, rfl⟩ := List.mem_iff_getElem.mp hrow
  have hi' : i < lines.length := h.length_eq ▸ hi
  exact ⟨lines[i], List.getElem_mem hi', h.get hi' hi⟩

/-- Lines are entered one row each, and the totals grow by what the lines weigh. -/
theorem exists_rows (h : lines.foldlM (Line.enter weights) valuation = .ok after) :
    ∃ rows, after.positions = valuation.positions ++ rows ∧
      List.Forall₂ (RowOf weights) lines rows ∧
      after.collateral.toRat =
        valuation.collateral.toRat + collateralOf (lines.map (Line.worth weights)) ∧
      after.liabilities.toRat =
        valuation.liabilities.toRat + liabilitiesOf (lines.map (Line.worth weights)) := by
  induction lines generalizing valuation with
  | nil =>
    cases pure_eq_ok_iff.mp h
    exact ⟨[], by simp, .nil, by simp [collateralOf], by simp [liabilitiesOf]⟩
  | cons line rest ih =>
    rw [List.foldlM_cons] at h
    obtain ⟨next, hline, hrest⟩ := bind_eq_ok_iff.mp h
    obtain ⟨row, hrow, henters⟩ := enters_of_enter hline
    obtain ⟨rows, hpositions, hrows, hcollateral, hliabilities⟩ := ih hrest
    refine ⟨row :: rows, ?_, .cons hrow hrows, ?_, ?_⟩
    · rw [hpositions, henters.positions, List.append_assoc]
      rfl
    · rw [hcollateral, henters.collateral, hrow.weighted_eq, add_assoc]
      rfl
    · rw [hliabilities, henters.liabilities, hrow.weighted_eq, add_assoc]
      rfl

/-- A valuation has a row for each line, and its totals are what the lines are worth. -/
structure Comprises (weights : Place → Weights) (lines : List Line) (valuation : Valuation) :
    Prop where
  rows : List.Forall₂ (RowOf weights) lines valuation.positions
  collateral : valuation.collateral.toRat = collateralOf (lines.map (Line.worth weights))
  liabilities : valuation.liabilities.toRat = liabilitiesOf (lines.map (Line.worth weights))

/-- No total falls below zero. -/
structure Nonneg (valuation : Valuation) : Prop where
  collateral : 0 ≤ valuation.collateral.toRat
  liabilities : 0 ≤ valuation.liabilities.toRat

end Valuation

namespace View

variable {v : View} {health : HealthType} {valuation : Valuation} {i : Fin marketSlots}
  {price : Fixed}

theorem exists_lines (h : v.value health = .ok valuation) :
    ∃ lines, v.lines = .ok lines ∧ valuation.Comprises (v.weights health) lines := by
  obtain ⟨lines, hlines, hvaluation⟩ := value_eq_ok_iff.mp h
  obtain ⟨rows, hpositions, hrows, hcollateral, hliabilities⟩ := Valuation.exists_rows hvaluation
  obtain rfl : valuation.positions = rows := hpositions
  rw [toRat_zero, zero_add] at hcollateral hliabilities
  exact ⟨lines, hlines, hrows, hcollateral, hliabilities⟩

theorem nonneg_of_value (h : v.value health = .ok valuation) : valuation.Nonneg := by
  obtain ⟨_, _, _, hcollateral, hliabilities⟩ := exists_lines h
  constructor
  · rw [hcollateral]
    exact collateralOf_nonneg _
  · rw [hliabilities]
    exact liabilitiesOf_nonneg _

/-- Health never leaves the range, and it is what the rows weigh together. -/
theorem health_of_value (h : v.value health = .ok valuation) :
    (valuation.collateral.satSub valuation.liabilities).toRat =
      (valuation.positions.map (·.weighted.toRat)).sum := by
  obtain ⟨hcollateral, hliabilities⟩ := nonneg_of_value h
  obtain ⟨lines, _, hrows, hassets, hdebts⟩ := exists_lines h
  rw [toRat_satSub (toRat_nonneg.mp hcollateral) (toRat_nonneg.mp hliabilities), hassets, hdebts,
    collateralOf_sub_liabilitiesOf, Valuation.map_weighted hrows]

/-- Base and quote that the open orders of a market leave once they have filled. -/
def ordersSide (v : View) (i : Fin marketSlots) (price : Fixed) : Valued (Fixed × Fixed) :=
  match v.openOrders.get i with
  | none => pure (0, 0)
  | some orders => orders.value.exposure price (v.group.value.tokens.get i.castSucc).decimals
      v.group.value.quoteToken.decimals

theorem spotSide_eq (v : View) (i : Fin marketSlots) (price : Fixed) :
    v.spotSide i price = (do
      let held ← v.netBalance i.castSucc (v.group.value.tokens.get i.castSucc).decimals
      let left ← v.ordersSide i price
      return (← held.add left.1, left.2)) := by
  cases horders : v.openOrders.get i with
  | none => simp only [spotSide, ordersSide, horders, pure_bind, Fixed.add_zero, ok_bind]
  | some orders => simp [spotSide, ordersSide, horders]

theorem spotSide_eq_ok_iff {spot : Fixed × Fixed} :
    v.spotSide i price = .ok spot ↔
      ∃ held, v.netBalance i.castSucc (v.group.value.tokens.get i.castSucc).decimals = .ok held ∧
      ∃ left, v.ordersSide i price = .ok left ∧ ∃ base, held.add left.1 = .ok base ∧
      (base, left.2) = spot := by
  simp only [spotSide_eq, bind_eq_ok_iff, pure_eq_ok_iff]

theorem netBalance_of_not_hasBalance {i : Fin tokenSlots} {decimals : UInt8}
    (h : v.account.value.hasBalance i = false) : v.netBalance i decimals = .ok 0 := by
  rw [netBalance, if_neg (Bool.eq_false_iff.mp h)]
  rfl

theorem idle_of_not_participates (h : v.account.value.participates i = false)
    (horders : v.openOrders.get i = none) (price : Fixed) :
    v.spotSide i price = .ok (0, 0) ∧ v.perpSide i price = .ok ([], []) := by
  obtain ⟨⟨hbalance, _⟩, hperp⟩ := by simpa [MarginAccount.participates] using h
  constructor
  · refine spotSide_eq_ok_iff.mpr ⟨0, netBalance_of_not_hasBalance hbalance, (0, 0), ?_, 0,
      Fixed.add_zero 0, rfl⟩
    rw [ordersSide, horders]
    rfl
  · rw [perpSide, hperp]
    rfl

theorem marketLines_of_no_price {reason : UndefinedReason} {part : List Line × List Fixed}
    (hprice : v.price i = .error reason) (h : v.marketLines i = .ok part) : part = ([], []) := by
  rw [marketLines] at h
  split at h
  · obtain ⟨price, hfound, _⟩ := bind_eq_ok_iff.mp h
    cases hprice.symm.trans hfound
  · exact (pure_eq_ok_iff.mp h).symm

/-- What a market adds to the totals, at its price. A market that the account does not
participate in adds as much as one in which it holds nothing. -/
theorem market_totals {part : List Line × List Fixed} (weights : Place → Weights)
    (hidle : v.account.value.participates i = false → v.openOrders.get i = none)
    (hpart : v.marketLines i = .ok part) (hprice : v.price i = .ok price) :
    ∃ spot perp, v.spotSide i price = .ok spot ∧ v.perpSide i price = .ok perp ∧
      collateralOf (part.1.map (Line.worth weights)) =
        max ((⟨.spot i, spot.1, price⟩ : Line).worth weights) 0 +
          collateralOf (perp.1.map (Line.worth weights)) ∧
      liabilitiesOf (part.1.map (Line.worth weights)) =
        max (-(⟨.spot i, spot.1, price⟩ : Line).worth weights) 0 +
          liabilitiesOf (perp.1.map (Line.worth weights)) ∧
      (part.2.map toRat).sum = spot.2.toRat + (perp.2.map toRat).sum := by
  by_cases hi : v.account.value.participates i
  case neg =>
    have hi' : v.account.value.participates i = false := Bool.eq_false_iff.mpr hi
    obtain ⟨hspot, hperp⟩ := idle_of_not_participates hi' (hidle hi') price
    have hworth : (⟨.spot i, 0, price⟩ : Line).worth weights = 0 := Line.worth_of_amount rfl
    cases (marketLines_of_not_participates hi').symm.trans hpart
    refine ⟨_, _, hspot, hperp, ?_, ?_, ?_⟩
    · simp [hworth, collateralOf]
    · simp [hworth, liabilitiesOf]
    · simp
  case pos =>
    obtain ⟨price', hprice', spot, hspot, perp, hperp, rfl⟩ := (marketLines_eq_ok_iff hi).mp hpart
    cases hprice.symm.trans hprice'
    refine ⟨spot, perp, hspot, hperp, ?_, ?_, ?_⟩
    · rw [List.map_append, collateralOf_append, Line.collateralOf_unlessZero]
    · rw [List.map_append, liabilitiesOf_append, Line.liabilitiesOf_unlessZero]
    · rw [List.map_cons, List.sum_cons]

/-- The lines of a view are those of its markets in order, and then the quote that is held
together with what the markets leave to the pool. -/
theorem exists_markets {lines : List Line} (h : v.lines = .ok lines) :
    ∃ (markets : Fin marketSlots → List Line × List Fixed) (held quote : Fixed),
      (∀ i, v.marketLines i = .ok (markets i)) ∧
      v.netBalance quoteIndex v.group.value.quoteToken.decimals = .ok held ∧
      quote.toRat = held.toRat + ∑ i, ((markets i).2.map toRat).sum ∧
      lines = (List.finRange marketSlots).flatMap (fun i => (markets i).1) ++
        (⟨.quote, quote, 1⟩ : Line).unlessZero := by
  obtain ⟨parts, hparts, h⟩ := bind_eq_ok_iff.mp h
  obtain ⟨pool, hpool, h⟩ := bind_eq_ok_iff.mp h
  obtain ⟨held, hheld, h⟩ := bind_eq_ok_iff.mp h
  obtain ⟨quote, hquote, h⟩ := bind_eq_ok_iff.mp h
  have heach (i : Fin marketSlots) : ∃ part, v.marketLines i = .ok part := by
    obtain ⟨part, _, hpart⟩ := exists_ok_of_mapM hparts (List.mem_finRange i)
    exact ⟨part, hpart⟩
  choose markets hmarkets using heach
  obtain rfl : (List.finRange marketSlots).map markets = parts :=
    Except.ok.inj ((mapM_eq_ok_map fun i _ => hmarkets i).symm.trans hparts)
  refine ⟨markets, held, quote, hmarkets, hheld, ?_, ?_⟩
  · rw [toRat_of_add hquote, toRat_of_foldlM_add hpool, toRat_zero, zero_add, List.flatMap_map,
      sum_flatMap_finRange]
  · rw [← pure_eq_ok_iff.mp h, List.flatMap_map]

/-- The totals of a valuation, market by market. -/
theorem totals_of_value (h : v.value health = .ok valuation) :
    ∃ (markets : Fin marketSlots → List Line × List Fixed) (held quote : Fixed),
      (∀ i, v.marketLines i = .ok (markets i)) ∧
      v.netBalance quoteIndex v.group.value.quoteToken.decimals = .ok held ∧
      quote.toRat = held.toRat + ∑ i, ((markets i).2.map toRat).sum ∧
      valuation.collateral.toRat =
        ∑ i, collateralOf ((markets i).1.map (Line.worth (v.weights health))) +
          max quote.toRat 0 ∧
      valuation.liabilities.toRat =
        ∑ i, liabilitiesOf ((markets i).1.map (Line.worth (v.weights health))) +
          max (-quote.toRat) 0 := by
  obtain ⟨lines, hlines, _, hcollateral, hliabilities⟩ := exists_lines h
  obtain ⟨markets, held, quote, hmarkets, hheld, hquote, rfl⟩ := exists_markets hlines
  have hworth : (⟨.quote, quote, 1⟩ : Line).worth (v.weights health) = quote.toRat := by
    simp [Line.worth, Weights.weighted, weights, Weights.unit]
  refine ⟨markets, held, quote, hmarkets, hheld, hquote, ?_, ?_⟩
  · rw [hcollateral, List.map_append, collateralOf_append, Line.collateralOf_unlessZero, hworth,
      collateralOf, List.map_map, sum_flatMap_finRange]
    simp only [collateralOf, List.map_map]
  · rw [hliabilities, List.map_append, liabilitiesOf_append, Line.liabilitiesOf_unlessZero, hworth,
      liabilitiesOf, List.map_map, sum_flatMap_finRange]
    simp only [liabilitiesOf, List.map_map]

end View

end Solvency
