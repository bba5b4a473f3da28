import Mathlib.Data.List.FinRange
import Mathlib.Data.List.Perm.Basic
import Mathlib.Logic.Equiv.Fin.Basic
import Mathlib.Logic.Equiv.Option
import Solvency.Proofs.Risk.Balances

/-! The numbers of the markets do not matter. Under other numbers a market has the same lines as
before, so the totals of a view are the same and its rows come in another order. -/

namespace Solvency

open Fixed

/-- Entries moved to their new indexes. -/
def permuted {α : Type} {n : Nat} (σ : Equiv.Perm (Fin n)) (xs : Vector α n) : Vector α n :=
  .ofFn fun i => xs.get (σ.symm i)

@[simp] theorem get_permuted {α : Type} {n : Nat} (σ : Equiv.Perm (Fin n)) (xs : Vector α n)
    (i : Fin n) : (permuted σ xs).get (σ i) = xs.get i :=
  (Vector.getElem_ofFn (σ i).isLt).trans (congrArg xs.get (σ.symm_apply_apply i))

@[simp] theorem getElem?_permuted {α : Type} {n : Nat} (σ : Equiv.Perm (Fin n)) (xs : Vector α n)
    (i : Fin n) : (permuted σ xs)[(σ i).val]? = xs[i.val]? := by
  simp [permuted, Vector.get]

/-- The numbers of the markets as those of the tokens. The quote token stays the last. -/
def tokenNumbering (σ : Equiv.Perm (Fin marketSlots)) : Equiv.Perm (Fin tokenSlots) :=
  finSuccEquivLast.trans (σ.optionCongr.trans finSuccEquivLast.symm)

section Definitions

variable (σ : Equiv.Perm (Fin marketSlots))

def MarginAccount.renumbered (a : MarginAccount) : MarginAccount :=
  { a with
    inMarginBasket := permuted σ a.inMarginBasket
    deposits := permuted (tokenNumbering σ) a.deposits
    borrows := permuted (tokenNumbering σ) a.borrows
    spotOpenOrders := permuted σ a.spotOpenOrders
    perpAccounts := permuted σ a.perpAccounts }

def Group.renumbered (g : Group) : Group :=
  { g with
    tokens := permuted (tokenNumbering σ) g.tokens
    spotMarkets := permuted σ g.spotMarkets
    perpMarkets := permuted σ g.perpMarkets }

def View.renumbered (v : View) : View :=
  { v with
    account := { v.account with value := v.account.value.renumbered σ }
    group := { v.group with value := v.group.value.renumbered σ }
    rootBanks := permuted (tokenNumbering σ) v.rootBanks
    oracles := permuted σ v.oracles
    openOrders := permuted σ v.openOrders
    perpMarkets := permuted σ v.perpMarkets }

def Place.renumbered : Place → Place
  | spot i => spot (σ i)
  | perp i => perp (σ i)
  | quote => quote

def Line.renumbered (line : Line) : Line := { line with place := line.place.renumbered σ }

/-- The new number of what has an index. That of the quote token stays. -/
def renumberedIndex (i : Nat) : Nat := if h : i < marketSlots then σ ⟨i, h⟩ else i

def Position.renumbered (row : Position) : Position :=
  { row with index := renumberedIndex σ row.index }

end Definitions

variable {σ : Equiv.Perm (Fin marketSlots)}

@[simp] theorem tokenNumbering_castSucc (i : Fin marketSlots) :
    tokenNumbering σ i.castSucc = (σ i).castSucc := by
  simp [tokenNumbering]

@[simp] theorem tokenNumbering_quote : tokenNumbering σ quoteIndex = quoteIndex := by
  have hlast : quoteIndex = Fin.last marketSlots := rfl
  simp [tokenNumbering, hlast]

theorem Place.index_renumbered (place : Place) :
    (place.renumbered σ).index = renumberedIndex σ place.index := by
  cases place with
  | spot i => simp [renumbered, index, renumberedIndex]
  | perp i => simp [renumbered, index, renumberedIndex]
  | quote => rfl

namespace MarginAccount

variable (a : MarginAccount) (i : Fin marketSlots)

theorem hasBalance_renumbered (i : Fin tokenSlots) :
    (a.renumbered σ).hasBalance (tokenNumbering σ i) = a.hasBalance i := by
  simp only [hasBalance, renumbered, getElem?_permuted]

theorem basketOpenOrders_renumbered :
    (a.renumbered σ).basketOpenOrders? (σ i) = a.basketOpenOrders? i := by
  simp only [basketOpenOrders?, renumbered, getElem?_permuted]

theorem perpAccount_renumbered : (a.renumbered σ).perpAccount? (σ i) = a.perpAccount? i := by
  simp only [perpAccount?, renumbered, getElem?_permuted]

theorem participates_renumbered : (a.renumbered σ).participates (σ i) = a.participates i := by
  have hbalance : (a.renumbered σ).hasBalance (σ i) = a.hasBalance i := by
    simpa using a.hasBalance_renumbered (σ := σ) i.castSucc
  simp only [participates, hbalance, basketOpenOrders_renumbered, perpAccount_renumbered]

end MarginAccount

theorem Group.quoteToken_renumbered (g : Group) : (g.renumbered σ).quoteToken = g.quoteToken := by
  have hquote := get_permuted (tokenNumbering σ) g.tokens quoteIndex
  rw [tokenNumbering_quote] at hquote
  exact hquote

theorem Valuation.rightUnique_rowOf (weights : Place → Weights) :
    Relator.RightUnique (RowOf weights) := by
  rintro line ⟨_, _, _, _, value, weighted⟩ ⟨_, _, _, _, value', weighted'⟩
    ⟨rfl, rfl, rfl, rfl, hvalue, hweighted⟩ ⟨rfl, rfl, rfl, rfl, hvalue', hweighted'⟩
  obtain rfl : value = value' := Except.ok.inj (hvalue.symm.trans hvalue')
  obtain rfl : weighted = weighted' := Except.ok.inj (hweighted.symm.trans hweighted')
  rfl

namespace View

variable (v : View) (i : Fin marketSlots) (price : Fixed)

theorem price_renumbered : (v.renumbered σ).price (σ i) = v.price i := by
  simp only [View.price, renumbered, get_permuted]

theorem netBalance_renumbered (i : Fin tokenSlots) (decimals : UInt8) :
    (v.renumbered σ).netBalance (tokenNumbering σ i) decimals = v.netBalance i decimals := by
  simp only [netBalance, renumbered, MarginAccount.hasBalance_renumbered, get_permuted]
  simp only [MarginAccount.renumbered, get_permuted]

theorem decimals_renumbered :
    ((v.renumbered σ).group.value.tokens.get (σ i).castSucc).decimals =
      (v.group.value.tokens.get i.castSucc).decimals := by
  rw [← tokenNumbering_castSucc, renumbered, Group.renumbered, get_permuted]

theorem spotSide_renumbered : (v.renumbered σ).spotSide (σ i) price = v.spotSide i price := by
  have hheld (decimals : UInt8) : (v.renumbered σ).netBalance (σ i).castSucc decimals =
      v.netBalance i.castSucc decimals := by
    rw [← tokenNumbering_castSucc, netBalance_renumbered]
  simp only [spotSide, decimals_renumbered, hheld]
  simp only [renumbered, get_permuted, Group.quoteToken_renumbered]

theorem perpSide_renumbered :
    (v.renumbered σ).perpSide (σ i) price =
      (fun perp => (perp.1.map (Line.renumbered σ), perp.2)) <$> v.perpSide i price := by
  simp only [perpSide, decimals_renumbered]
  simp only [renumbered, get_permuted, Group.quoteToken_renumbered,
    MarginAccount.perpAccount_renumbered]
  simp only [Group.renumbered, get_permuted]
  cases v.account.value.perpAccount? i with
  | none => rfl
  | some perp =>
    cases v.perpMarkets.get i with
    | none => rfl
    | some market => simp [Line.renumbered, Place.renumbered]

theorem marketLines_renumbered {part : List Line × List Fixed} (h : v.marketLines i = .ok part) :
    (v.renumbered σ).marketLines (σ i) = .ok (part.1.map (Line.renumbered σ), part.2) := by
  have hsame : (v.renumbered σ).account.value.participates (σ i) = v.account.value.participates i :=
    v.account.value.participates_renumbered i
  cases hi : v.account.value.participates i with
  | false =>
    cases (marketLines_of_not_participates hi).symm.trans h
    exact marketLines_of_not_participates (hsame.trans hi)
  | true =>
    obtain ⟨price, hprice, spot, hspot, perp, hperp, rfl⟩ := (marketLines_eq_ok_iff hi).mp h
    have hperp' : (v.renumbered σ).perpSide (σ i) price =
        .ok (perp.1.map (Line.renumbered σ), perp.2) := by
      rw [perpSide_renumbered, hperp]
      rfl
    refine (marketLines_eq_ok_iff (hsame.trans hi)).mpr
      ⟨price, (v.price_renumbered i).trans hprice, spot,
        (v.spotSide_renumbered i price).trans hspot, _, hperp', ?_⟩
    by_cases hbase : spot.1 = 0 <;> simp [Line.unlessZero, hbase, Line.renumbered, Place.renumbered]

theorem lines_renumbered {lines lines' : List Line} (h : v.lines = .ok lines)
    (h' : (v.renumbered σ).lines = .ok lines') :
    lines'.Perm (lines.map (Line.renumbered σ)) := by
  obtain ⟨markets, held, quote, hmarkets, hheld, hquote, rfl⟩ := exists_markets h
  obtain ⟨markets', held', quote', hmarkets', hheld', hquote', rfl⟩ := exists_markets h'
  have hmarket (i : Fin marketSlots) :
      markets' (σ i) = ((markets i).1.map (Line.renumbered σ), (markets i).2) :=
    Except.ok.inj ((hmarkets' (σ i)).symm.trans (v.marketLines_renumbered i (hmarkets i)))
  have hsame : (v.renumbered σ).netBalance quoteIndex
      (v.renumbered σ).group.value.quoteToken.decimals =
        v.netBalance quoteIndex v.group.value.quoteToken.decimals := by
    have hdecimals : (v.renumbered σ).group.value.quoteToken = v.group.value.quoteToken :=
      v.group.value.quoteToken_renumbered
    have hbalance := v.netBalance_renumbered (σ := σ) quoteIndex v.group.value.quoteToken.decimals
    rw [tokenNumbering_quote] at hbalance
    rw [hdecimals, hbalance]
  obtain rfl : held' = held := Except.ok.inj (hheld'.symm.trans (hsame.trans hheld))
  -- the pool is one sum over the markets, whichever of them comes first
  obtain rfl : quote' = quote := by
    rw [← toRat_inj, hquote, hquote', ← Equiv.sum_comp σ]
    simp only [hmarket]
  have hlast : (⟨.quote, quote', 1⟩ : Line).unlessZero =
      (⟨.quote, quote', 1⟩ : Line).unlessZero.map (Line.renumbered σ) := by
    by_cases hzero : quote' = 0 <;> simp [Line.unlessZero, hzero, Line.renumbered, Place.renumbered]
  rw [List.map_append, ← hlast, List.map_flatMap]
  refine List.Perm.append_right _ ?_
  have hmoved := (σ.map_finRange_perm.flatMap_right fun i => (markets' i).1).symm
  rw [List.flatMap_map] at hmoved
  simpa only [hmarket] using hmoved

variable {health : HealthType}

theorem weights_renumbered (place : Place) :
    (v.renumbered σ).weights health (place.renumbered σ) = v.weights health place := by
  cases place with
  | spot i => simp only [Place.renumbered, weights, renumbered, Group.renumbered, get_permuted]
  | perp i => simp only [Place.renumbered, weights, renumbered, Group.renumbered, get_permuted]
  | quote => simp only [Place.renumbered, weights]

theorem worth_renumbered (line : Line) :
    (line.renumbered σ).worth ((v.renumbered σ).weights health) =
      line.worth (v.weights health) := by
  rw [Line.worth, Line.worth, Line.renumbered, weights_renumbered]

theorem rowOf_renumbered {line : Line} {row : Position}
    (h : Valuation.RowOf (v.weights health) line row) :
    Valuation.RowOf ((v.renumbered σ).weights health) (line.renumbered σ) (row.renumbered σ) where
  kind := by
    rw [Line.renumbered, Position.renumbered, h.kind]
    cases line.place <;> rfl
  index := by
    rw [Line.renumbered, Position.renumbered, h.index, Place.index_renumbered]
  amount := h.amount
  price := h.price
  value := h.value
  weighted := by
    rw [Line.renumbered, weights_renumbered]
    exact h.weighted

variable {v} {valuation valuation' : Valuation}

theorem value_renumbered (h : v.value health = .ok valuation)
    (h' : (v.renumbered σ).value health = .ok valuation') :
    valuation'.collateral = valuation.collateral ∧
      valuation'.liabilities = valuation.liabilities ∧
      valuation'.positions.Perm (valuation.positions.map (Position.renumbered σ)) := by
  obtain ⟨lines, hlines, hrows, hcollateral, hliabilities⟩ := exists_lines h
  obtain ⟨lines', hlines', hrows', hcollateral', hliabilities'⟩ := exists_lines h'
  have hperm := v.lines_renumbered hlines hlines'
  have hworths := hperm.map (Line.worth ((v.renumbered σ).weights health))
  simp only [List.map_map, Function.comp_def, worth_renumbered] at hworths
  refine ⟨?_, ?_, ?_⟩
  · rw [← toRat_inj, hcollateral, hcollateral', collateralOf_perm hworths]
  · rw [← toRat_inj, hliabilities, hliabilities', liabilitiesOf_perm hworths]
  · have hmoved : List.Forall₂ (Valuation.RowOf ((v.renumbered σ).weights health))
        (lines.map (Line.renumbered σ)) (valuation.positions.map (Position.renumbered σ)) := by
      rw [List.forall₂_map_left_iff, List.forall₂_map_right_iff]
      exact hrows.imp fun _ _ => v.rowOf_renumbered
    exact List.rel_perm_imp (Valuation.rightUnique_rowOf _) hrows' hmoved hperm

end View

namespace Calculator

/-- Under other numbers for its markets an account has the same totals, health, leverage and
verdict, and its rows are the same but for their numbers and their order. -/
theorem numbering_irrelevant (c : Calculator) (σ : Equiv.Perm (Fin marketSlots)) {v : View}
    (hvalue : (v.value c.healthType).isOk = true)
    (hvalue' : ((v.renumbered σ).value c.healthType).isOk = true) (time time' : Nat) :
    let snapshot := c.evaluate time v
    let snapshot' := c.evaluate time' (v.renumbered σ)
    snapshot'.collateral = snapshot.collateral ∧ snapshot'.liabilities = snapshot.liabilities ∧
      snapshot'.health = snapshot.health ∧ snapshot'.leverage = snapshot.leverage ∧
      snapshot'.verdict = snapshot.verdict ∧
      snapshot'.positions.Perm (snapshot.positions.map (Position.renumbered σ)) := by
  intro snapshot snapshot'
  obtain ⟨valuation, h⟩ := exists_of_isOk hvalue
  obtain ⟨valuation', h'⟩ := exists_of_isOk hvalue'
  obtain ⟨hcollateral, hliabilities, hpositions⟩ := View.value_renumbered h h'
  simp only [snapshot, snapshot', evaluate, h, h']
  refine ⟨hcollateral, hliabilities, ?_, ?_, ?_, hpositions⟩ <;> rw [hcollateral, hliabilities]

/-- Open orders and a perpetual position move from market 0 to market 2, and a deposit back. -/
theorem numbering_irrelevant_endowed :
    let σ : Equiv.Perm (Fin marketSlots) := Equiv.swap 0 2
    let snapshot := (⟨.maintenance, 1⟩ : Calculator).evaluate 1 endowed
    let snapshot' := (⟨.maintenance, 1⟩ : Calculator).evaluate 2 (endowed.renumbered σ)
    snapshot.positions.map Position.kind = [.spot, .perp, .spot, .spot, .quote] ∧
      snapshot'.positions.map Position.kind = [.spot, .spot, .spot, .perp, .quote] ∧
      snapshot'.health = snapshot.health ∧ snapshot'.leverage = snapshot.leverage ∧
      snapshot'.verdict = snapshot.verdict ∧
      snapshot'.positions.Perm (snapshot.positions.map (Position.renumbered σ)) := by
  intro σ snapshot snapshot'
  have hvalue : (endowed.value .maintenance).isOk = true := by decide +kernel
  have hvalue' : ((endowed.renumbered σ).value .maintenance).isOk = true := by decide +kernel
  obtain ⟨_, _, hsame⟩ := numbering_irrelevant ⟨.maintenance, 1⟩ σ hvalue hvalue' 1 2
  exact ⟨by decide +kernel, by decide +kernel, hsame⟩

end Calculator

end Solvency
