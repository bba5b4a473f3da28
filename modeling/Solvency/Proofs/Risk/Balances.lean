import Solvency.Proofs.Risk.Orders
import Solvency.Proofs.Risk.Stricter
import Solvency.Proofs.Risk.Totals

/-! Higher deposits never hurt an account, and higher borrows never help it. The net balance of a
token moves one way with them, and so does everything that is computed from it. -/

namespace Solvency

open Fixed

namespace MarginAccount

theorem hasBalance_eq_false_iff {a : MarginAccount} {i : Fin tokenSlots} :
    a.hasBalance i = false ↔ a.deposits.get i = 0 ∧ a.borrows.get i = 0 := by
  rw [← Bool.not_eq_true, hasBalance_iff, not_or, not_not, not_not]

end MarginAccount

/-- What is deposited less what is borrowed, in whole tokens. -/
def RootBank.net (bank : RootBank) (decimals : UInt8) (deposit borrow : Fixed) : ℚ :=
  truncate ((roundDown (deposit.toRat * bank.depositIndex.toRat) -
    roundDown (borrow.toRat * bank.borrowIndex.toRat)) / 10 ^ decimals.toNat)

/-- A debt does not turn into a deposit by growing, nor a deposit into a debt. -/
structure RootBank.Nonneg (bank : RootBank) : Prop where
  deposit : 0 ≤ bank.depositIndex
  borrow : 0 ≤ bank.borrowIndex

theorem RootBank.Nonneg.net_mono {bank : RootBank} (h : bank.Nonneg) (decimals : UInt8)
    {deposit deposit' borrow borrow' : Fixed} (hdeposit : deposit ≤ deposit')
    (hborrow : borrow' ≤ borrow) :
    bank.net decimals deposit borrow ≤ bank.net decimals deposit' borrow' := by
  have hdeposited := roundDown_mono
    (mul_le_mul_of_nonneg_right (toRat_le_toRat.mpr hdeposit) (toRat_nonneg.mpr h.deposit))
  have hborrowed := roundDown_mono
    (mul_le_mul_of_nonneg_right (toRat_le_toRat.mpr hborrow) (toRat_nonneg.mpr h.borrow))
  exact truncate_mono (div_le_div_of_nonneg_right (sub_le_sub hdeposited hborrowed) (by positivity))

theorem Line.worth_le_worth {weights : Place → Weights} {place : Place}
    {amount amount' price : Fixed} (hweights : (weights place).Nonneg) (hprice : 0 ≤ price)
    (h : amount ≤ amount') :
    (⟨place, amount, price⟩ : Line).worth weights ≤
      (⟨place, amount', price⟩ : Line).worth weights :=
  hweights.weighted_mono (roundDown_mono
    (mul_le_mul_of_nonneg_right (toRat_le_toRat.mpr h) (toRat_nonneg.mpr hprice)))

namespace View

/-- Weights and indexes are not negative, and open orders stand only where the account has some
in its basket. -/
structure Regular (v : View) (health : HealthType) : Prop where
  weights : ∀ i, (Weights.spot (v.group.value.spotMarkets.get i) health).Nonneg
  banks : ∀ i bank, v.rootBanks.get i = some bank → bank.value.Nonneg
  orders : ∀ i : Fin marketSlots, (v.openOrders.get i).isSome = true →
    (v.account.value.basketOpenOrders? i).isSome = true

/-- The view of the same account with other balances. -/
def withBalances (v : View) (deposits borrows : Vector Fixed tokenSlots) : View :=
  { v with account := { v.account with value := { v.account.value with deposits, borrows } } }

variable {v : View} {health : HealthType} {deposits borrows : Vector Fixed tokenSlots}

theorem Regular.withBalances (h : v.Regular health) (deposits borrows : Vector Fixed tokenSlots) :
    (v.withBalances deposits borrows).Regular health :=
  ⟨h.weights, h.banks, h.orders⟩

theorem Regular.idle (h : v.Regular health) {i : Fin marketSlots}
    (hi : v.account.value.participates i = false) : v.openOrders.get i = none := by
  obtain ⟨⟨_, hbasket⟩, _⟩ := by simpa [MarginAccount.participates] using hi
  have horders := mt (h.orders i)
  simpa [hbasket] using horders

/-- A token without a balance nets to zero, as its deposits and borrows do. -/
theorem toRat_netBalance {i : Fin tokenSlots} {decimals : UInt8} {held : Fixed}
    (h : v.netBalance i decimals = .ok held) :
    held.toRat = (v.rootBanks.get i).elim 0 fun bank =>
      bank.value.net decimals (v.account.value.deposits.get i) (v.account.value.borrows.get i) := by
  by_cases hi : v.account.value.hasBalance i
  · rw [netBalance, if_pos hi] at h
    cases hbank : v.rootBanks.get i with
    | none =>
      rw [hbank] at h
      cases h
    | some bank =>
      simp only [hbank, bind_eq_ok_iff] at h
      obtain ⟨deposited, hdeposited, borrowed, hborrowed, owned, howned, hheld⟩ := h
      rw [toRat_of_toUi hheld, toRat_of_sub howned, toRat_of_mul hdeposited,
        toRat_of_mul hborrowed]
      rfl
  · have hi' := Bool.eq_false_iff.mpr hi
    obtain ⟨hdeposit, hborrow⟩ := MarginAccount.hasBalance_eq_false_iff.mp hi'
    cases (netBalance_of_not_hasBalance hi').symm.trans h
    cases v.rootBanks.get i with
    | none => exact toRat_zero
    | some bank => simp [hdeposit, hborrow, RootBank.net]

section Raised

variable (hregular : v.Regular health)
  (hdeposits : ∀ i, v.account.value.deposits.get i ≤ deposits.get i)
  (hborrows : ∀ i, borrows.get i ≤ v.account.value.borrows.get i)

include hregular hdeposits hborrows

theorem Regular.netBalance_mono {i : Fin tokenSlots} {decimals : UInt8} {held held' : Fixed}
    (h : v.netBalance i decimals = .ok held)
    (h' : (v.withBalances deposits borrows).netBalance i decimals = .ok held') : held ≤ held' := by
  have hbefore := toRat_netBalance h
  have hafter := toRat_netBalance h'
  rw [← toRat_le_toRat, hbefore, hafter]
  cases hbank : v.rootBanks.get i with
  | none => simp [View.withBalances, hbank]
  | some bank =>
    simpa [View.withBalances, hbank] using
      (hregular.banks i bank hbank).net_mono decimals (hdeposits i) (hborrows i)

theorem Regular.market_mono {i : Fin marketSlots} {part part' : List Line × List Fixed}
    (h : v.marketLines i = .ok part)
    (h' : (v.withBalances deposits borrows).marketLines i = .ok part') :
    collateralOf (part.1.map (Line.worth (v.weights health))) ≤
        collateralOf (part'.1.map (Line.worth (v.weights health))) ∧
      liabilitiesOf (part'.1.map (Line.worth (v.weights health))) ≤
        liabilitiesOf (part.1.map (Line.worth (v.weights health))) ∧
      (part'.2.map toRat).sum = (part.2.map toRat).sum := by
  cases hprice : v.price i with
  | error reason =>
    obtain rfl := marketLines_of_no_price hprice h
    obtain rfl := marketLines_of_no_price (v := v.withBalances deposits borrows) hprice h'
    exact ⟨le_rfl, le_rfl, rfl⟩
  | ok price =>
    have hidle' := (hregular.withBalances deposits borrows).idle (i := i)
    obtain ⟨spot, perp, hspot, hperp, hcollateral, hliabilities, hpool⟩ :=
      market_totals (v.weights health) hregular.idle h hprice
    obtain ⟨spot', perp', hspot', hperp', hcollateral', hliabilities', hpool'⟩ :=
      market_totals (v.weights health) hidle' h' hprice
    obtain rfl : perp = perp' := Except.ok.inj (hperp.symm.trans hperp')
    obtain ⟨held, hheld, left, hleft, base, hbase, rfl⟩ := spotSide_eq_ok_iff.mp hspot
    obtain ⟨held', hheld', left', hleft', base', hbase', rfl⟩ := spotSide_eq_ok_iff.mp hspot'
    obtain rfl : left = left' := Except.ok.inj (hleft.symm.trans hleft')
    have hgrown : base ≤ base' := by
      rw [← toRat_le_toRat, toRat_of_add hbase, toRat_of_add hbase']
      exact add_le_add_left
        (toRat_le_toRat.mpr (hregular.netBalance_mono hdeposits hborrows hheld hheld')) _
    have hworth : (⟨.spot i, base, price⟩ : Line).worth (v.weights health) ≤
        (⟨.spot i, base', price⟩ : Line).worth (v.weights health) :=
      Line.worth_le_worth (hregular.weights i) (Int.le_of_lt (price_pos hprice)) hgrown
    rw [hcollateral, hcollateral', hliabilities, hliabilities', hpool, hpool']
    refine ⟨?_, ?_, rfl⟩
    · gcongr
    · gcongr

theorem Regular.harsher_of_value {valuation valuation' : Valuation}
    (h : v.value health = .ok valuation)
    (h' : (v.withBalances deposits borrows).value health = .ok valuation') :
    valuation.Harsher valuation' := by
  obtain ⟨markets, held, quote, hmarkets, hheld, hquote, hcollateral, hliabilities⟩ :=
    totals_of_value h
  obtain ⟨markets', held', quote', hmarkets', hheld', hquote', hcollateral', hliabilities'⟩ :=
    totals_of_value h'
  have hmarket i := hregular.market_mono hdeposits hborrows (hmarkets i) (hmarkets' i)
  have hpool : quote.toRat ≤ quote'.toRat := by
    rw [hquote, hquote', Finset.sum_congr rfl fun i _ => (hmarket i).2.2]
    exact add_le_add_left
      (toRat_le_toRat.mpr (hregular.netBalance_mono hdeposits hborrows hheld hheld')) _
  constructor
  · rw [hcollateral, hcollateral']
    exact add_le_add (Finset.sum_le_sum fun i _ => (hmarket i).1) (max_le_max_right 0 hpool)
  · rw [hliabilities, hliabilities']
    exact add_le_add (Finset.sum_le_sum fun i _ => (hmarket i).2.1)
      (max_le_max_right 0 (neg_le_neg hpool))

end Raised

end View

namespace Calculator

/-- With deposits that are nowhere lower and borrows that are nowhere higher, an account has no
less collateral, no more liabilities, no less health and no more leverage, and it does not become
liquidatable from being safe. -/
theorem higher_balances_never_hurt {v : View} {deposits borrows : Vector Fixed tokenSlots}
    (c : Calculator) (hregular : v.Regular c.healthType)
    (hdeposits : ∀ i, v.account.value.deposits.get i ≤ deposits.get i)
    (hborrows : ∀ i, borrows.get i ≤ v.account.value.borrows.get i) (time time' : Nat) :
    let v' := v.withBalances deposits borrows
    let snapshot := c.evaluate time v
    let snapshot' := c.evaluate time' v'
    ((v.value c.healthType).isOk = true → (v'.value c.healthType).isOk = true →
      snapshot.collateral ≤ snapshot'.collateral ∧
      snapshot'.liabilities ≤ snapshot.liabilities ∧ snapshot.health ≤ snapshot'.health) ∧
    (∀ x x', snapshot.leverage = .defined x → snapshot'.leverage = .defined x' → x' ≤ x) ∧
    (0 < c.threshold → ∀ headroom, snapshot.verdict = .safe headroom →
      snapshot'.verdict.isLiquidatable = false) := by
  intro v' snapshot snapshot'
  cases h : v.value c.healthType with
  | error reason => simp [snapshot, evaluate, h, Except.isOk, Except.toBool]
  | ok valuation =>
    cases h' : v'.value c.healthType with
    | error reason =>
      simp [snapshot', evaluate, h', Except.isOk, Except.toBool, Verdict.isLiquidatable]
    | ok valuation' =>
      obtain ⟨hcollateral, hliabilities⟩ :=
        hregular.harsher_of_value hdeposits hborrows h h'
      have hnonneg := (View.nonneg_of_value h').liabilities
      simp only [snapshot, snapshot', evaluate, h, h']
      refine ⟨fun _ _ => ⟨toRat_le_toRat.mp hcollateral, toRat_le_toRat.mp hliabilities, ?_⟩,
        fun x x' hx hx' => leverage_le_leverage hnonneg hcollateral hliabilities hx' hx,
        fun hpos headroom hsafe => ?_⟩
      · exact satSub_le_satSub (toRat_le_toRat.mp hcollateral) (toRat_le_toRat.mp hliabilities)
      · rw [← Bool.not_eq_true]
        intro hliquidatable
        have hworse := isLiquidatable_of_verdict rfl hpos hcollateral hliabilities hliquidatable
          (by simp [hsafe])
        rw [hsafe] at hworse
        cases hworse

/-- Open orders and a perpetual position in market 0, and a debt in market 1. -/
def encumbered : View :=
  let v := levered .halved
  { v with
    account := { v.account with
      value := { v.account.value with
        inMarginBasket := .ofFn (·.val == 0)
        spotOpenOrders := .ofFn fun i => if i.val = 0 then ⟨6⟩ else .zero } }
    openOrders := .ofFn fun i => if i.val = 0 then some ⟨⟨6⟩, 0, View.offered⟩ else none }

/-- The same account after a first deposit of a third token. -/
def endowed : View :=
  encumbered.withBalances (encumbered.account.value.deposits.set 2 (whole 10))
    encumbered.account.value.borrows

theorem higher_balances_never_hurt_encumbered :
    let snapshot := (⟨.maintenance, whole 2⟩ : Calculator).evaluate 1 encumbered
    let snapshot' := (⟨.maintenance, whole 2⟩ : Calculator).evaluate 2 endowed
    encumbered.account.value.participates 2 = false ∧ endowed.account.value.participates 2 = true ∧
      snapshot.collateral ≤ snapshot'.collateral ∧ snapshot'.liabilities ≤ snapshot.liabilities ∧
      snapshot.health ≤ snapshot'.health ∧
      (∃ x x', snapshot.leverage = .defined x ∧ snapshot'.leverage = .defined x' ∧ x' ≤ x) ∧
      snapshot.verdict = .safe (whole 150) ∧ snapshot'.verdict.isLiquidatable = false := by
  intro snapshot snapshot'
  have hbanks : ∀ i bank, encumbered.rootBanks.get i = some bank → bank.value.Nonneg := by
    intro i bank hbank
    have hdefault : encumbered.rootBanks.get i = some default := Vector.getElem_ofFn i.isLt
    cases hdefault.symm.trans hbank
    exact ⟨by decide, by decide⟩
  have hregular : encumbered.Regular .maintenance := ⟨by decide +kernel, hbanks, by decide +kernel⟩
  have hdeposits : ∀ i, encumbered.account.value.deposits.get i ≤
      endowed.account.value.deposits.get i := by decide +kernel
  have hborrows : ∀ i, endowed.account.value.borrows.get i ≤
      encumbered.account.value.borrows.get i := fun _ => Int.le_refl _
  have hpos : 0 < whole 2 := by decide +kernel
  have hsafe : snapshot.verdict = .safe (whole 150) := by decide +kernel
  have hx : snapshot.leverage = .defined ⟨19 * scale / 17, by decide, by decide⟩ := by
    decide +kernel
  have hx' : snapshot'.leverage = .defined ⟨190 * scale / 185, by decide, by decide⟩ := by
    decide +kernel
  have hvalue : (encumbered.value .maintenance).isOk = true := by decide +kernel
  have hvalue' : (endowed.value .maintenance).isOk = true := by decide +kernel
  obtain ⟨htotals, hleverage, hverdict⟩ :=
    higher_balances_never_hurt ⟨.maintenance, whole 2⟩ hregular hdeposits hborrows 1 2
  obtain ⟨hcollateral, hliabilities, hhealth⟩ := htotals hvalue hvalue'
  exact ⟨by decide +kernel, by decide +kernel, hcollateral, hliabilities, hhealth,
    ⟨_, _, hx, hx', hleverage _ _ hx hx'⟩, hsafe, hverdict hpos _ hsafe⟩

end Calculator

end Solvency
