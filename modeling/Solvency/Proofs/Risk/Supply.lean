import Solvency.Proofs.View.Requirements
import Solvency.Risk.Valuation

/-! A composed view holds what its valuation looks up. What is left to fail on is a price
that cannot be used and a number that leaves its range. -/

namespace Solvency

namespace Valued

variable {α β : Type} {allowed : UndefinedReason → Prop}

def FailsOnly (allowed : UndefinedReason → Prop) (x : Valued α) : Prop :=
  ∀ reason, x = .error reason → allowed reason

@[simp] theorem failsOnly_pure (a : α) : FailsOnly allowed (pure a) := by
  intro reason h
  cases h

@[simp] theorem failsOnly_throw {reason : UndefinedReason} :
    FailsOnly allowed (throw reason : Valued α) ↔ allowed reason := by
  constructor
  · intro h
    exact h reason rfl
  · intro h other heq
    cases heq
    exact h

@[simp] theorem failsOnly_bind {x : Valued α} {f : α → Valued β} :
    FailsOnly allowed (x >>= f) ↔
      FailsOnly allowed x ∧ ∀ a, x = .ok a → FailsOnly allowed (f a) := by
  cases x with
  | error reason => simp [FailsOnly, bind, Except.bind]
  | ok a => simp [FailsOnly, bind, Except.bind]

@[simp] theorem failsOnly_map {x : Valued α} {f : α → β} :
    FailsOnly allowed (f <$> x) ↔ FailsOnly allowed x := by
  cases x with
  | error reason => simp [FailsOnly]
  | ok a => simp [FailsOnly]

@[simp] theorem failsOnly_ite {x y : Valued α} {p : Prop} [Decidable p] :
    FailsOnly allowed (if p then x else y) ↔
      (p → FailsOnly allowed x) ∧ (¬p → FailsOnly allowed y) := by
  by_cases h : p <;> simp [h]

theorem failsOnly_ofOption (h : allowed .overflow) (x : Option α) :
    FailsOnly allowed (ofOption x) := by
  intro reason heq
  cases x with
  | none =>
    cases heq
    exact h
  | some a => cases heq

theorem FailsOnly.foldlM {f : β → α → Valued β} (h : ∀ b a, FailsOnly allowed (f b a))
    (items : List α) (b : β) : FailsOnly allowed (items.foldlM f b) := by
  induction items generalizing b with
  | nil => exact failsOnly_pure b
  | cons a rest ih =>
    rw [List.foldlM_cons]
    exact failsOnly_bind.mpr ⟨h b a, fun next _ => ih next⟩

end Valued

open Solvency.Valued

section Arithmetic

variable {allowed : UndefinedReason → Prop} (h : allowed .overflow)

include h

theorem Valuation.failsOnly_push (v : Valuation) (kind : PositionKind) (index : Nat)
    (amount price : Fixed) (weights : Weights) :
    FailsOnly allowed (v.push kind index amount price weights) := by
  have hop (x : Option Fixed) : FailsOnly allowed (ofOption x) := failsOnly_ofOption h x
  simp [push, Weights.apply, Fixed.mul, Fixed.add, Fixed.sub, hop]

theorem OpenOrders.failsOnly_exposure (o : OpenOrders) (price : Fixed)
    (decimals quoteDecimals : UInt8) :
    FailsOnly allowed (o.exposure price decimals quoteDecimals) := by
  have hop (x : Option Fixed) : FailsOnly allowed (ofOption x) := failsOnly_ofOption h x
  simp [exposure, Fixed.ofInt, Fixed.toUi, Fixed.mul, Fixed.div, Fixed.add, hop]

theorem PerpAccount.failsOnly_unsettledFunding (p : PerpAccount) (market : PerpMarket) :
    FailsOnly allowed (p.unsettledFunding market) := by
  have hop (x : Option Fixed) : FailsOnly allowed (ofOption x) := failsOnly_ofOption h x
  simp [unsettledFunding, Fixed.ofInt, Fixed.mul, Fixed.sub, hop]

theorem PerpAccount.failsOnly_exposure (p : PerpAccount) (market : PerpMarket)
    (info : PerpMarketInfo) (price : Fixed) (decimals quoteDecimals : UInt8) :
    FailsOnly allowed (p.exposure market info price decimals quoteDecimals) := by
  have hop (x : Option Fixed) : FailsOnly allowed (ofOption x) := failsOnly_ofOption h x
  have hfunding := p.failsOnly_unsettledFunding h market
  simp [exposure, Fixed.ofInt, Fixed.toUi, Fixed.mul, Fixed.add, Fixed.sub, Fixed.abs, hop,
    hfunding]

end Arithmetic

namespace View

variable {v : View}

/-- A part stands at exactly those indexes at which the account refers to one. -/
structure Supplied (v : View) : Prop where
  rootBanks : ∀ i : Fin tokenSlots, (v.rootBanks.get i).isSome = true ↔
    v.account.value.deposits.get i ≠ 0 ∨ v.account.value.borrows.get i ≠ 0
  oracles : ∀ i : Fin marketSlots, (v.oracles.get i).isSome = v.account.value.participates i
  openOrders : ∀ i : Fin marketSlots,
    (v.openOrders.get i).isSome = (v.account.value.basketOpenOrders? i).isSome
  perpMarkets : ∀ i : Fin marketSlots,
    (v.perpMarkets.get i).isSome = (v.account.value.perpAccount? i).isSome

/-- One of the oracles gives no usable price: it is not trading or its price is not positive. -/
def HoldsBadPrice (v : View) : Prop :=
  ∃ i oracle, v.oracles.get i = some oracle ∧
    (oracle.value.isTrading = false ∨ ∃ price, oracle.value.uiPrice? = some price ∧ price ≤ 0)

def MayFail (v : View) : UndefinedReason → Prop
  | .overflow => True
  | .nonPositivePrice => v.HoldsBadPrice
  | .zeroCollateral | .incompleteView => False

theorem Supplied.failsOnly_price (h : v.Supplied) {i : Fin marketSlots}
    (hi : v.account.value.participates i) : FailsOnly v.MayFail (v.price i) := by
  have hoverflow : v.MayFail .overflow := trivial
  obtain ⟨oracle, horacle⟩ := Option.isSome_iff_exists.mp ((h.oracles i).trans hi)
  simp only [price, horacle]
  split
  case isFalse htrading =>
    have hbad : v.HoldsBadPrice := ⟨i, oracle, horacle, .inl (Bool.eq_false_iff.mpr htrading)⟩
    exact failsOnly_throw.mpr hbad
  case isTrue =>
    refine failsOnly_bind.mpr ⟨failsOnly_ofOption hoverflow _, fun price hprice => ?_⟩
    by_cases hpos : 0 < price
    · rw [if_pos hpos]
      exact failsOnly_pure price
    · have hsome : oracle.value.uiPrice? = some price := by
        cases hui : oracle.value.uiPrice? with
        | none => simp [hui, ofOption] at hprice
        | some found => simpa [hui, ofOption] using hprice
      have hbad : v.HoldsBadPrice :=
        ⟨i, oracle, horacle, .inr ⟨price, hsome, Int.not_lt.mp hpos⟩⟩
      rw [if_neg hpos]
      exact failsOnly_throw.mpr hbad

section Parts

variable {allowed : UndefinedReason → Prop} (hoverflow : allowed .overflow)
  (hbank : ∀ i : Fin tokenSlots, v.account.value.hasBalance i = true →
    v.rootBanks.get i = none → allowed .incompleteView)

include hoverflow hbank

theorem failsOnly_netBalance (i : Fin tokenSlots) (decimals : UInt8) :
    FailsOnly allowed (v.netBalance i decimals) := by
  have hop (x : Option Fixed) : FailsOnly allowed (ofOption x) := failsOnly_ofOption hoverflow x
  by_cases hi : v.account.value.hasBalance i
  · cases hstands : v.rootBanks.get i with
    | none => simp [netBalance, hi, hstands, hbank i hi hstands]
    | some bank => simp [netBalance, hi, hstands, Fixed.mul, Fixed.sub, Fixed.toUi, hop]
  · simp [netBalance, hi]

variable
  (hprice : ∀ i : Fin marketSlots, v.account.value.participates i → FailsOnly allowed (v.price i))
  (hmarket : ∀ i : Fin marketSlots, (v.account.value.perpAccount? i).isSome = true →
    v.perpMarkets.get i = none → allowed .incompleteView)

include hprice hmarket

theorem failsOnly_valueMarket (health : HealthType) (total : Valuation × Fixed)
    (i : Fin marketSlots) : FailsOnly allowed (v.valueMarket health total i) := by
  have hop (x : Option Fixed) : FailsOnly allowed (ofOption x) := failsOnly_ofOption hoverflow x
  have hpush := @Valuation.failsOnly_push allowed hoverflow
  have horders := @OpenOrders.failsOnly_exposure allowed hoverflow
  have hperp := @PerpAccount.failsOnly_exposure allowed hoverflow
  obtain ⟨valuation, pool⟩ := total
  by_cases hi : v.account.value.participates i
  case neg => simp [valueMarket, hi]
  have hfound := hprice i hi
  have hbalance := failsOnly_netBalance hoverflow hbank i.castSucc
  have hlacking := hmarket i
  -- The perpetual position is valued last, after either way through the open orders.
  cases hposition : v.account.value.perpAccount? i with
  | none =>
    cases horder : v.openOrders.get i <;>
      simp [valueMarket, hi, hfound, hbalance, horder, hposition, horders, hpush, Fixed.add, hop]
  | some perp =>
    rw [hposition] at hlacking
    cases hstands : v.perpMarkets.get i <;> cases horder : v.openOrders.get i <;>
      simp_all [valueMarket, Fixed.add]

/-- A valuation fails as its prices do, for a root bank or a perpetual market that is missing, or
on a number that leaves its range. -/
theorem failsOnly_value (health : HealthType) : FailsOnly allowed (v.value health) := by
  have hmarkets := FailsOnly.foldlM (failsOnly_valueMarket hoverflow hbank hprice hmarket health)
    (List.finRange marketSlots)
  have hquote := failsOnly_netBalance hoverflow hbank quoteIndex
  have hop (x : Option Fixed) : FailsOnly allowed (ofOption x) := failsOnly_ofOption hoverflow x
  have hpush := @Valuation.failsOnly_push allowed hoverflow
  simp [value, hmarkets, hquote, hpush, Fixed.add, hop]

end Parts

theorem Supplied.failsOnly_value (h : v.Supplied) (health : HealthType) :
    FailsOnly v.MayFail (v.value health) := by
  refine View.failsOnly_value trivial (fun i hi hnone => ?_) (fun i hi => h.failsOnly_price hi)
    (fun i hi hnone => ?_) health
  · have hstands := (h.rootBanks i).mpr (MarginAccount.hasBalance_iff.mp hi)
    exact absurd hnone (Option.isSome_iff_ne_none.mp hstands)
  · exact absurd hnone (Option.isSome_iff_ne_none.mp ((h.perpMarkets i).trans hi))

end View

theorem Calculator.mayFail_of_undefined {v : View} (h : v.Supplied) (c : Calculator)
    {time : Nat} {reason : UndefinedReason}
    (hreason : (c.evaluate time v).leverage = .undefined reason) :
    reason = .zeroCollateral ∨ v.MayFail reason := by
  have hvalue := h.failsOnly_value c.healthType
  cases hresult : v.value c.healthType with
  | error found =>
    simp only [evaluate, hresult, Leverage.undefined.injEq] at hreason
    exact .inr (hvalue reason (hreason ▸ hresult))
  | ok valuation =>
    simp only [evaluate, hresult, leverage] at hreason
    split at hreason
    · cases hreason
    split at hreason
    · exact .inl (Leverage.undefined.inj hreason).symm
    cases hratio : valuation.liabilities.div? valuation.collateral with
    | none =>
      rw [hratio] at hreason
      cases hreason
      exact .inr trivial
    | some ratio =>
      rw [hratio] at hreason
      cases hreason

namespace Requirement

variable {account : MarginAccount} {group : Group}

section Roles

variable {i : Fin tokenSlots} {m : Fin marketSlots}

theorem rootBank_planned :
    (∃ r ∈ plan account group, r.role = .rootBank i) ↔ account.hasBalance i = true := by
  simp only [mem_plan_iff]
  grind

theorem oracle_planned :
    (∃ r ∈ plan account group, r.role = .oracle m) ↔ account.participates m = true := by
  simp only [mem_plan_iff]
  grind

theorem openOrders_planned :
    (∃ r ∈ plan account group, r.role = .openOrders m) ↔
      (account.basketOpenOrders? m).isSome = true := by
  simp only [mem_plan_iff, Option.isSome_iff_exists]
  grind

theorem perpMarket_planned :
    (∃ r ∈ plan account group, r.role = .perpMarket m) ↔
      (account.perpAccount? m).isSome = true := by
  simp only [mem_plan_iff]
  grind

end Roles

end Requirement

namespace Lookup

variable {lookup : Lookup} {tolerance : Nat} {a : Address}

theorem supplied_of_build {view : View} (h : lookup.build tolerance a = .ok view) :
    view.Supplied := by
  obtain ⟨account, group, parts, _, _, hparts, _, rfl⟩ := build_eq_ok_iff.mp h
  have hget {n : Nat} {β : Type} (f : Fin n → β) (i : Fin n) : (Vector.ofFn f).get i = f i := by
    exact Vector.getElem_ofFn i.isLt
  refine ⟨fun i => ?_, fun i => Bool.eq_iff_iff.mpr ?_, fun i => Bool.eq_iff_iff.mpr ?_,
    fun i => Bool.eq_iff_iff.mpr ?_⟩ <;> simp only [View.ofParts, hget]
  · exact (hparts.find?_isSome_iff Entity.reads_rootBank).trans
      (Requirement.rootBank_planned.trans MarginAccount.hasBalance_iff)
  · exact (hparts.find?_isSome_iff Entity.reads_oraclePrice).trans
      Requirement.oracle_planned
  · exact (hparts.find?_isSome_iff Entity.reads_openOrders).trans
      Requirement.openOrders_planned
  · exact (hparts.find?_isSome_iff Entity.reads_perpMarket).trans
      Requirement.perpMarket_planned

/-- The valuation of a composed view finds every part that it looks up, and a price fails it
only if an oracle of the view gives no usable one. -/
theorem build_supplies_valuation {view : View} (h : lookup.build tolerance a = .ok view)
    (c : Calculator) (time : Nat) :
    lookup.account a = .ok view.account ∧ view.Supplied ∧
      (c.evaluate time view).leverage ≠ .undefined .incompleteView ∧
      ((c.evaluate time view).leverage = .undefined .nonPositivePrice → view.HoldsBadPrice) := by
  have hsupplied := supplied_of_build h
  refine ⟨?_, hsupplied, ?_, ?_⟩
  · obtain ⟨account, group, parts, haccount, _, _, _, rfl⟩ := build_eq_ok_iff.mp h
    exact haccount
  · intro hincomplete
    rcases c.mayFail_of_undefined hsupplied hincomplete with hreason | hnever
    · cases hreason
    · exact hnever
  · intro hprice
    rcases c.mayFail_of_undefined hsupplied hprice with hreason | hbad
    · cases hreason
    · exact hbad

/-- A balance and open orders in market 0, a perpetual position in market 1, whose oracle is
halted. -/
def halted : Lookup := fun a =>
  (List.lookup a [
    (⟨1⟩, Entity.marginAccount { (default : MarginAccount) with
      group := ⟨2⟩
      deposits := (default : MarginAccount).deposits.set 0 1
      inMarginBasket := (default : MarginAccount).inMarginBasket.set 0 true
      spotOpenOrders := (default : MarginAccount).spotOpenOrders.set 0 ⟨6⟩
      perpAccounts := (default : MarginAccount).perpAccounts.set 1
        { (default : PerpAccount) with basePosition := 1 } }),
    (⟨2⟩, .group { (default : Group) with
      numOracles := 2
      oracles := ((default : Group).oracles.set 0 ⟨4⟩).set 1 ⟨5⟩
      tokens := (default : Group).tokens.set 0 { (default : TokenInfo) with rootBank := ⟨3⟩ }
      perpMarkets := (default : Group).perpMarkets.set 1
        { (default : PerpMarketInfo) with perpMarket := ⟨7⟩ } }),
    (⟨3⟩, .rootBank default),
    (⟨4⟩, .oraclePrice {
      aggregate := { (default : PriceInfo) with price := 5, status := .trading } }),
    (⟨5⟩, .oraclePrice {
      aggregate := { (default : PriceInfo) with price := 5, status := .halted } }),
    (⟨6⟩, .openOrders default),
    (⟨7⟩, .perpMarket default)]).map (⟨·, 9, 9⟩)

theorem build_supplies_valuation_halted :
    ∃ view, halted.build 0 ⟨1⟩ = .ok view ∧
      ((⟨.maintenance, 1⟩ : Calculator).evaluate 1 view).leverage = .undefined .nonPositivePrice ∧
      view.Supplied ∧ view.HoldsBadPrice := by
  have hbuild : (halted.build 0 ⟨1⟩).isOk = true := by decide +kernel
  have hprice : (halted.build 0 ⟨1⟩).toOption.map
      (fun view => ((⟨.maintenance, 1⟩ : Calculator).evaluate 1 view).leverage) =
        some (.undefined .nonPositivePrice) := by decide +kernel
  obtain ⟨view, hview⟩ := exists_of_isOk hbuild
  rw [hview] at hprice
  have hleverage := Option.some.inj hprice
  obtain ⟨_, hsupplied, _, hbad⟩ := build_supplies_valuation hview ⟨.maintenance, 1⟩ 1
  exact ⟨view, hview, hleverage, hsupplied, hbad hleverage⟩

end Lookup

end Solvency
