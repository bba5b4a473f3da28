import Solvency.Proofs.Risk.Stricter

/-! Every snapshot reconciles with its rows. The totals are sums of what the rows weigh, the rows
come in one order, and a valuation that fails leaves nothing behind. -/

namespace Solvency

open Fixed

/-- Rows come by market, and in one market its token before its perpetual position. -/
def Precedes (label label' : PositionKind × Nat) : Prop :=
  label.2 < label'.2 ∨ label.2 = label'.2 ∧ label.1 = .spot ∧ label'.1 = .perp

def Place.label (place : Place) : PositionKind × Nat := (place.kind, place.index)

namespace Position

def label (row : Position) : PositionKind × Nat := (row.kind, row.index)

structure OfMarket (account : MarginAccount) (row : Position) : Prop where
  kind : row.kind ≠ .quote
  participates : ∃ i : Fin marketSlots, row.index = i ∧ account.participates i = true

end Position

/-- Rows of markets in order, and then the one of the quote, if there is one. -/
def InOrder (account : MarginAccount) (rows : List Position) : Prop :=
  ∃ (markets : List Position) (quote : Option Position), rows = markets ++ quote.toList ∧
    (markets.map Position.label).Pairwise Precedes ∧ (∀ row ∈ markets, row.OfMarket account) ∧
    ∀ row ∈ quote, row.label = (.quote, quoteIndex.val)

/-- Leverage is the exact ratio rounded toward zero, if there is such a number. -/
structure Leverage.IsRatio (liabilities collateral : Fixed) (leverage : Leverage) : Prop where
  defined : ∀ x, leverage = .defined x ↔ liabilities = 0 ∧ x = 0 ∨
    0 < collateral ∧ 0 < liabilities ∧ x.toRat = truncate (liabilities.toRat / collateral.toRat)
  zeroCollateral : leverage = .undefined .zeroCollateral ↔ collateral = 0 ∧ 0 < liabilities
  overflow : leverage = .undefined .overflow ↔ 0 < collateral ∧ 0 < liabilities ∧
    ¬ InRange (truncate (liabilities.toRat / collateral.toRat))

namespace Snapshot

/-- What the rows weigh, with the sign. -/
def weighted (s : Snapshot) : List ℚ := s.positions.map (·.weighted.toRat)

/-- A snapshot has a row for each line of its view, and adds up. -/
structure Reconciles (v : View) (s : Snapshot) : Prop where
  lines : ∃ lines, v.lines = .ok lines ∧
    List.Forall₂ (Valuation.RowOf (v.weights s.healthType)) lines s.positions
  inOrder : InOrder v.account.value s.positions
  collateral : s.collateral.toRat = (s.weighted.filter (0 ≤ ·)).sum
  liabilities : s.liabilities.toRat = -(s.weighted.filter (· < 0)).sum
  nonneg : 0 ≤ s.collateral ∧ 0 ≤ s.liabilities
  health : s.health.toRat = s.collateral.toRat - s.liabilities.toRat
  health_eq_sum : s.health.toRat = s.weighted.sum
  leverage : s.leverage.IsRatio s.liabilities s.collateral

/-- What a valuation leaves behind that failed. -/
structure IsBlank (reason : UndefinedReason) (s : Snapshot) : Prop where
  collateral : s.collateral = 0
  liabilities : s.liabilities = 0
  health : s.health = 0
  positions : s.positions = []
  leverage : s.leverage = .undefined reason
  verdict : s.verdict = .indeterminate

end Snapshot

namespace Valuation

variable {weights : Place → Weights} {lines : List Line} {rows : List Position}

theorem map_label (h : List.Forall₂ (RowOf weights) lines rows) :
    rows.map Position.label = lines.map (·.place.label) := by
  induction h with
  | nil => rfl
  | cons hrow _ ih =>
    rw [List.map_cons, List.map_cons, ih, Position.label, hrow.kind, hrow.index]
    rfl

theorem row_of_unlessZero {line : Line}
    (h : List.Forall₂ (RowOf weights) line.unlessZero rows) :
    ∃ row : Option Position, rows = row.toList ∧ ∀ found ∈ row, found.label = line.place.label := by
  rw [Line.unlessZero] at h
  split at h
  · cases h
    exact ⟨none, rfl, fun _ hnone => absurd hnone (Option.not_mem_none _)⟩
  · obtain ⟨row, _, hrow, hnil, rfl⟩ := List.forall₂_cons_left_iff.mp h
    cases hnil
    refine ⟨some row, rfl, fun found hfound => ?_⟩
    obtain rfl := Option.mem_some.mp hfound
    rw [Position.label, hrow.kind, hrow.index]
    rfl

end Valuation

namespace View

variable {v : View} {health : HealthType} {i : Fin marketSlots} {price : Fixed}

theorem places_perpSide {perp : List Line × List Fixed} (h : v.perpSide i price = .ok perp) :
    (perp.1.map (·.place)).Sublist [.perp i] := by
  rw [perpSide] at h
  split at h
  · cases pure_eq_ok_iff.mp h
    exact List.nil_sublist _
  · split at h
    · cases h
    · obtain ⟨exposure, _, h⟩ := bind_eq_ok_iff.mp h
      cases pure_eq_ok_iff.mp h
      exact List.Sublist.refl _

/-- A market has a line for its token and one for its perpetual position at most, and none at all
if the account does not participate in it. -/
theorem places_marketLines {part : List Line × List Fixed} (h : v.marketLines i = .ok part) :
    (part.1.map (·.place)).Sublist [.spot i, .perp i] ∧
      ∀ line ∈ part.1, v.account.value.participates i = true := by
  by_cases hi : v.account.value.participates i = true
  case neg =>
    cases (marketLines_of_not_participates (Bool.eq_false_iff.mpr hi)).symm.trans h
    exact ⟨List.nil_sublist _, fun _ hline => absurd hline List.not_mem_nil⟩
  case pos =>
    obtain ⟨price, _, spot, _, perp, hperp, rfl⟩ := (marketLines_eq_ok_iff hi).mp h
    refine ⟨?_, fun _ _ => hi⟩
    have hspot :
        ((⟨.spot i, spot.1, price⟩ : Line).unlessZero.map (·.place)).Sublist [.spot i] := by
      rw [Line.unlessZero]
      split
      · exact List.nil_sublist _
      · exact List.Sublist.refl _
    rw [List.map_append]
    exact hspot.append (places_perpSide hperp)

theorem label_of_marketLines {part : List Line × List Fixed} (h : v.marketLines i = .ok part)
    {line : Line} (hline : line ∈ part.1) :
    line.place.kind ≠ .quote ∧ line.place.index = i := by
  have hmem := (places_marketLines h).1.subset (List.mem_map_of_mem hline)
  rcases List.mem_pair.mp hmem with hplace | hplace
  · rw [hplace]
    exact ⟨nofun, rfl⟩
  · rw [hplace]
    exact ⟨nofun, rfl⟩

theorem pairwise_precedes {markets : Fin marketSlots → List Line × List Fixed}
    (h : ∀ i, v.marketLines i = .ok (markets i)) :
    (((List.finRange marketSlots).flatMap fun i => (markets i).1).map (·.place.label)).Pairwise
      Precedes := by
  rw [List.pairwise_map, List.pairwise_flatMap]
  refine ⟨fun i _ => ?_, (List.pairwise_lt_finRange _).imp fun hij line hline line' hline' => ?_⟩
  · have hpair : [Place.spot i, .perp i].Pairwise fun a b => Precedes a.label b.label :=
      List.pairwise_pair.mpr (.inr ⟨rfl, rfl, rfl⟩)
    have hplaces : ((markets i).1.map (·.place)).Pairwise fun a b => Precedes a.label b.label :=
      hpair.sublist (places_marketLines (h i)).1
    rw [List.pairwise_map] at hplaces
    exact hplaces
  · -- lines of two markets are apart by their index
    left
    change line.place.index < line'.place.index
    rw [(label_of_marketLines (h _) hline).2, (label_of_marketLines (h _) hline').2]
    exact hij

/-- The rows of the markets and of the quote, in the order in which they were entered. -/
theorem inOrder_of_value {valuation : Valuation} (h : v.value health = .ok valuation) :
    InOrder v.account.value valuation.positions := by
  obtain ⟨lines, hlines, h⟩ := value_eq_ok_iff.mp h
  obtain ⟨markets, held, quote, hmarkets, _, _, rfl⟩ := exists_markets hlines
  rw [List.foldlM_append] at h
  obtain ⟨before, hbefore, hafter⟩ := bind_eq_ok_iff.mp h
  obtain ⟨rows, hpositions, hrows, _⟩ := Valuation.exists_rows hbefore
  obtain ⟨last, hpositions', hlast, _⟩ := Valuation.exists_rows hafter
  have hlabels := Valuation.map_label hrows
  have hall : valuation.positions = rows ++ last := by
    rw [hpositions', hpositions]
    rfl
  have hmarket : ∀ row ∈ rows, row.OfMarket v.account.value := by
    intro row hrow
    have hmem := List.mem_map_of_mem (f := Position.label) hrow
    rw [hlabels] at hmem
    obtain ⟨line, hline, hlabel⟩ := List.mem_map.mp hmem
    obtain ⟨i, _, hline⟩ := List.mem_flatMap.mp hline
    obtain ⟨hkind, hindex⟩ := label_of_marketLines (hmarkets i) hline
    obtain ⟨hkind', hindex'⟩ := Prod.mk.inj hlabel
    have hparticipates := (places_marketLines (hmarkets i)).2 line hline
    exact ⟨hkind' ▸ hkind, i, hindex'.symm.trans hindex, hparticipates⟩
  have hsorted := hlabels ▸ pairwise_precedes hmarkets
  obtain ⟨row, rfl, hrow⟩ := Valuation.row_of_unlessZero hlast
  exact ⟨rows, row, hall, hsorted, hmarket, hrow⟩

end View

namespace Calculator

variable {collateral liabilities : Fixed}

theorem leverage_eq_undefined_iff {reason : UndefinedReason} :
    leverage collateral liabilities = .undefined reason ↔ liabilities ≠ 0 ∧
      (collateral ≤ 0 ∧ reason = .zeroCollateral ∨
        ¬ collateral ≤ 0 ∧ liabilities.div? collateral = none ∧ reason = .overflow) := by
  rw [leverage]
  by_cases hzero : liabilities = 0
  · simp [hzero]
  by_cases hpos : collateral ≤ 0
  · simp [hzero, hpos, eq_comm]
  · cases liabilities.div? collateral <;> simp [hzero, hpos, eq_comm]

theorem isRatio_leverage (hcollateral : 0 ≤ collateral) (hliabilities : 0 ≤ liabilities) :
    (leverage collateral liabilities).IsRatio liabilities collateral := by
  have howes := pos_iff_ne_zero hliabilities
  have hholds := pos_iff_ne_zero hcollateral
  have hzero : collateral ≤ 0 ↔ collateral = 0 := by
    rw [← toRat_nonpos, ← toRat_eq_zero]
    exact (toRat_nonneg.mpr hcollateral).ge_iff_eq'
  constructor
  · intro x
    rw [leverage_eq_defined_iff, div?_eq_some_iff, ← howes, ← hholds]
    refine or_congr_right ⟨?_, ?_⟩
    · rintro ⟨howed, hheld, _, hx⟩
      exact ⟨hheld, howed, hx⟩
    · rintro ⟨hheld, howed, hx⟩
      exact ⟨howed, hheld, hheld, hx⟩
  · simp [leverage_eq_undefined_iff, ← howes, hzero, and_comm]
  · simp only [leverage_eq_undefined_iff, div?_eq_none_iff, hzero, ← howes, ← hholds,
      reduceCtorEq, and_false, false_or, and_true]
    constructor
    · rintro ⟨howed, hheld, hratio⟩
      exact ⟨hheld, howed, hratio.resolve_left (hholds.mp hheld)⟩
    · rintro ⟨hheld, howed, hratio⟩
      exact ⟨howed, hheld, .inr hratio⟩

/-- A snapshot reconciles with its rows if the account could be valued, and is blank if not. -/
theorem evaluate_reconciles (c : Calculator) (time : Nat) (v : View) :
    match v.value c.healthType with
    | .ok _ => (c.evaluate time v).Reconciles v
    | .error reason => (c.evaluate time v).IsBlank reason := by
  cases h : v.value c.healthType with
  | error reason =>
    simp only [evaluate, h]
    exact ⟨rfl, rfl, rfl, rfl, rfl, rfl⟩
  | ok valuation =>
    obtain ⟨lines, hlines, hvaluation⟩ := View.value_eq_ok_iff.mp h
    obtain ⟨rows, hpositions, hrows, hcollateral, hliabilities⟩ := Valuation.exists_rows hvaluation
    obtain rfl : valuation.positions = rows := hpositions
    obtain ⟨hnonneg, hnonneg'⟩ := View.nonneg_of_value h
    rw [toRat_nonneg] at hnonneg hnonneg'
    rw [toRat_zero, zero_add, ← Valuation.map_weighted hrows] at hcollateral hliabilities
    have hhealth := toRat_satSub hnonneg hnonneg'
    simp only [evaluate, h]
    exact {
      lines := ⟨lines, hlines, hrows⟩
      inOrder := View.inOrder_of_value h
      collateral := hcollateral.trans (collateralOf_eq_sum_filter _)
      liabilities := hliabilities.trans (liabilitiesOf_eq_neg_sum_filter _)
      nonneg := ⟨hnonneg, hnonneg'⟩
      health := hhealth
      health_eq_sum := View.health_of_value h
      leverage := isRatio_leverage hnonneg hnonneg' }

/-- The same account while the price of what it owes is not known. -/
def unquoted : View :=
  { levered .halved with
    oracles := .ofFn fun i => if i.val = 1 then none else (levered .halved).oracles.get i }

theorem evaluate_reconciles_levered :
    let c : Calculator := ⟨.maintenance, 1⟩
    (c.evaluate 1 (levered .halved)).positions.map (·.label) =
        [(.spot, 0), (.perp, 0), (.spot, 1), (.quote, 15)] ∧
      (c.evaluate 1 (levered .halved)).Reconciles (levered .halved) ∧
      (c.evaluate 1 unquoted).IsBlank .nonPositivePrice := by
  intro c
  have hvalued : ((levered .halved).value .maintenance).isOk = true := by decide +kernel
  have hunvalued : (unquoted.value .maintenance).isOk = false := by decide +kernel
  have hlacking : (c.evaluate 1 unquoted).leverage = .undefined .nonPositivePrice := by
    decide +kernel
  obtain ⟨valuation, hvaluation⟩ := exists_of_isOk hvalued
  have hreconciles := evaluate_reconciles c 1 (levered .halved)
  rw [hvaluation] at hreconciles
  refine ⟨by decide +kernel, hreconciles, ?_⟩
  have hblank := evaluate_reconciles c 1 unquoted
  cases hvalue : unquoted.value .maintenance with
  | ok valuation =>
    rw [hvalue] at hunvalued
    cases hunvalued
  | error reason =>
    rw [hvalue] at hblank
    cases hblank.leverage.symm.trans hlacking
    exact hblank

end Calculator

end Solvency
