import Solvency.Proofs.Risk.Unvalued

/-! What a view lacks of the requirements of its account. A root bank, an oracle or a perpetual
market that is missing fails the valuation. Open orders that are missing do not: the account is
valued as if it had none there. -/

namespace Solvency

open Fixed

theorem MarginAccount.participates_iff {a : MarginAccount} {i : Nat} :
    a.participates i = true ↔ a.hasBalance i = true ∨ (a.basketOpenOrders? i).isSome = true ∨
      (a.perpAccount? i).isSome = true := by
  simp [participates, or_assoc]

namespace View

variable {v : View} {health : HealthType} {valuation : Valuation} {i : Fin marketSlots}
  {price : Fixed}

/-- The view has an entry for the part. -/
def holds (v : View) : Role → Bool
  | .marginAccount | .group => true
  | .rootBank i => v.rootBanks[i]?.join.isSome
  | .oracle i => v.oracles[i]?.join.isSome
  | .openOrders i => v.openOrders[i]?.join.isSome
  | .perpMarket i => v.perpMarkets[i]?.join.isSome

@[simp] theorem holds_rootBank (v : View) (i : Fin tokenSlots) :
    v.holds (.rootBank i) = (v.rootBanks.get i).isSome := by
  simp [holds, Vector.get]

@[simp] theorem holds_oracle (v : View) (i : Fin marketSlots) :
    v.holds (.oracle i) = (v.oracles.get i).isSome := by
  simp [holds, Vector.get]

@[simp] theorem holds_openOrders (v : View) (i : Fin marketSlots) :
    v.holds (.openOrders i) = (v.openOrders.get i).isSome := by
  simp [holds, Vector.get]

@[simp] theorem holds_perpMarket (v : View) (i : Fin marketSlots) :
    v.holds (.perpMarket i) = (v.perpMarkets.get i).isSome := by
  simp [holds, Vector.get]

theorem rootBank_of_netBalance {i : Fin tokenSlots} {decimals : UInt8} {held : Fixed}
    (h : v.netBalance i decimals = .ok held) (hi : v.account.value.hasBalance i = true) :
    v.holds (.rootBank i) = true := by
  rw [netBalance, if_pos hi] at h
  cases hbank : v.rootBanks.get i with
  | none =>
    rw [hbank] at h
    cases h
  | some bank => rw [holds_rootBank, hbank, Option.isSome_some]

theorem oracle_of_price (h : v.price i = .ok price) : v.holds (.oracle i) = true := by
  cases horacle : v.oracles.get i with
  | none =>
    rw [View.price, horacle] at h
    cases h
  | some oracle => rw [holds_oracle, horacle, Option.isSome_some]

theorem perpMarket_of_perpSide {perp : List Line × List Fixed} (h : v.perpSide i price = .ok perp)
    (hi : (v.account.value.perpAccount? i).isSome = true) : v.holds (.perpMarket i) = true := by
  obtain ⟨position, hposition⟩ := Option.isSome_iff_exists.mp hi
  cases hmarket : v.perpMarkets.get i with
  | none =>
    rw [perpSide, hposition, hmarket] at h
    cases h
  | some market => rw [holds_perpMarket, hmarket, Option.isSome_some]

theorem sides_of_value (h : v.value health = .ok valuation)
    (hi : v.account.value.participates i = true) :
    ∃ price, v.price i = .ok price ∧ ∃ spot, v.spotSide i price = .ok spot ∧
      ∃ perp, v.perpSide i price = .ok perp := by
  obtain ⟨markets, _, _, hmarkets, _⟩ := totals_of_value h
  obtain ⟨price, hprice, spot, hspot, perp, hperp, _⟩ := (marketLines_eq_ok_iff hi).mp (hmarkets i)
  exact ⟨price, hprice, spot, hspot, perp, hperp⟩

/-- A valuation looks up whatever the account refers to, but for open orders. -/
theorem holds_of_value (h : v.value health = .ok valuation) {r : Requirement}
    (hr : r ∈ Requirement.plan v.account.value v.group.value)
    (hkind : r.role.kind ≠ .openOrders) : v.holds r.role = true := by
  obtain ⟨_, held, _, _, hheld, _⟩ := totals_of_value h
  rcases Requirement.mem_plan_iff.mp hr with ⟨i, hi, rfl⟩ | ⟨i, hrole⟩
  · refine Fin.lastCases (fun hi => ?_) (fun i hi => ?_) i hi
    · exact rootBank_of_netBalance hheld hi
    · have hparticipates := MarginAccount.participates_iff.mpr (.inl hi)
      obtain ⟨price, _, spot, hspot, _⟩ := sides_of_value h hparticipates
      obtain ⟨balance, hbalance, _⟩ := spotSide_eq_ok_iff.mp hspot
      exact rootBank_of_netBalance hbalance hi
  · rcases hrole with ⟨hi, rfl⟩ | ⟨address, _, rfl⟩ | ⟨hi, rfl⟩
    · obtain ⟨price, hprice, _⟩ := sides_of_value h hi
      exact oracle_of_price hprice
    · exact absurd rfl hkind
    · have hparticipates := MarginAccount.participates_iff.mpr (.inr (.inr hi))
      obtain ⟨price, _, _, _, perp, hperp⟩ := sides_of_value h hparticipates
      exact perpMarket_of_perpSide hperp hi

/-- The account has open orders in a market that the view does not hold. -/
def MissesOrders (v : View) (i : Fin marketSlots) : Prop :=
  (v.account.value.basketOpenOrders? i).isSome = true ∧ v.holds (.openOrders i) = false

instance (v : View) (i : Fin marketSlots) : Decidable (v.MissesOrders i) :=
  inferInstanceAs (Decidable (_ ∧ _))

def withBasket (v : View) (basket : Vector Bool marketSlots) : View :=
  { v with account := { v.account with
    value := { v.account.value with inMarginBasket := basket } } }

/-- The view of the same account without the open orders that are missing. -/
def withoutMissingOrders (v : View) : View :=
  v.withBasket (.ofFn fun i => v.account.value.inMarginBasket.get i && v.holds (.openOrders i))

section WithBasket

variable (v : View) (basket : Vector Bool marketSlots) (i : Fin marketSlots) (price : Fixed)

theorem hasBalance_withBasket (i : Nat) :
    (v.withBasket basket).account.value.hasBalance i = v.account.value.hasBalance i := rfl

theorem perpAccount_withBasket :
    (v.withBasket basket).account.value.perpAccount? i = v.account.value.perpAccount? i := rfl

theorem price_withBasket : (v.withBasket basket).price i = v.price i := rfl

theorem netBalance_withBasket (i : Fin tokenSlots) (decimals : UInt8) :
    (v.withBasket basket).netBalance i decimals = v.netBalance i decimals := rfl

theorem spotSide_withBasket : (v.withBasket basket).spotSide i price = v.spotSide i price := rfl

theorem perpSide_withBasket : (v.withBasket basket).perpSide i price = v.perpSide i price := rfl

theorem weights_withBasket (health : HealthType) :
    (v.withBasket basket).weights health = v.weights health := rfl

end WithBasket

theorem basketOpenOrders_withoutMissingOrders (v : View) (i : Fin marketSlots) :
    v.withoutMissingOrders.account.value.basketOpenOrders? i =
      if v.holds (.openOrders i) then v.account.value.basketOpenOrders? i else none := by
  have hflag : v.account.value.inMarginBasket[i.val] = v.account.value.inMarginBasket.get i := rfl
  cases horders : (v.openOrders.get i).isSome <;>
    simp [MarginAccount.basketOpenOrders?, withoutMissingOrders, withBasket, horders, hflag]

section Without

variable {basket : Vector Bool marketSlots}
  (hbasket : ∀ i : Fin marketSlots, (v.withBasket basket).account.value.basketOpenOrders? i =
    if v.holds (.openOrders i) then v.account.value.basketOpenOrders? i else none)

include hbasket

theorem participates_of_withBasket
    (h : (v.withBasket basket).account.value.participates i = true) :
    v.account.value.participates i = true := by
  rw [MarginAccount.participates_iff, hbasket, hasBalance_withBasket, perpAccount_withBasket] at h
  rw [MarginAccount.participates_iff]
  refine h.imp_right (Or.imp_left fun horders => ?_)
  split at horders
  · exact horders
  · cases horders

/-- A market that the account leaves with the missing orders is one in which it has nothing else. -/
theorem missesOrders_of_participates (h : v.account.value.participates i = true)
    (h' : (v.withBasket basket).account.value.participates i = false) : v.MissesOrders i := by
  rw [← Bool.not_eq_true, MarginAccount.participates_iff, hbasket, hasBalance_withBasket,
    perpAccount_withBasket, not_or, not_or] at h'
  obtain ⟨hbalance, hleft, hperp⟩ := h'
  rw [MarginAccount.participates_iff] at h
  have horders := (h.resolve_left hbalance).resolve_right hperp
  refine ⟨horders, Bool.eq_false_iff.mpr fun hentry => hleft ?_⟩
  rw [if_pos hentry]
  exact horders

theorem valueMarket_withBasket (hprice : ∀ i, v.MissesOrders i → (v.price i).isOk = true)
    (health : HealthType) : (v.withBasket basket).valueMarket health = v.valueMarket health := by
  funext ⟨valuation, pool⟩ i
  simp only [valueMarket_eq, price_withBasket, spotSide_withBasket, perpSide_withBasket,
    weights_withBasket]
  cases hi' : (v.withBasket basket).account.value.participates i with
  | true => rw [participates_of_withBasket hbasket hi']
  | false =>
    cases hi : v.account.value.participates i with
    | false => rfl
    | true =>
      -- nothing is left in this market but its price, which is looked up all the same
      have hmisses := missesOrders_of_participates hbasket hi hi'
      obtain ⟨price, hfound⟩ := exists_of_isOk (hprice i hmisses)
      have hnone : v.openOrders.get i = none := by simpa using hmisses.2
      obtain ⟨hspot, hperp⟩ := idle_of_not_participates hi' hnone price
      rw [spotSide_withBasket] at hspot
      rw [perpSide_withBasket] at hperp
      simp [hfound, hspot, hperp, ok_bind, Fixed.add_zero, Line.unlessZero, pure_eq_ok_iff]

end Without

/-- Missing open orders count as none, if their markets have a price. -/
theorem value_withoutMissingOrders (hprice : ∀ i, v.MissesOrders i → (v.price i).isOk = true)
    (health : HealthType) : v.withoutMissingOrders.value health = v.value health := by
  rw [withoutMissingOrders, value, value,
    valueMarket_withBasket v.basketOpenOrders_withoutMissingOrders hprice, netBalance_withBasket]
  rfl

end View

namespace Calculator

theorem evaluate_withBasket {c : Calculator} {v : View} {basket : Vector Bool marketSlots}
    (h : (v.withBasket basket).value c.healthType = v.value c.healthType) (time : Nat) :
    c.evaluate time (v.withBasket basket) = c.evaluate time v := by
  rw [evaluate, evaluate, h]
  rfl

/-- A view that lacks a root bank, an oracle or a perpetual market is not valued, and one that
lacks open orders is not if their market has no price. Otherwise it is valued as if the account
had no open orders where they are missing. -/
theorem incomplete_unvalued_unless_orders (c : Calculator) (time : Nat) (v : View) :
    let snapshot := c.evaluate time v
    (∀ r ∈ Requirement.plan v.account.value v.group.value, v.holds r.role = false →
      r.role.kind ≠ .openOrders → snapshot.Unvalued ∧ snapshot.verdict = .indeterminate) ∧
    (∀ i, v.MissesOrders i → (v.price i).isOk = false →
      snapshot.Unvalued ∧ snapshot.verdict = .indeterminate) ∧
    ((∀ i, v.MissesOrders i → (v.price i).isOk = true) →
      snapshot = c.evaluate time v.withoutMissingOrders) := by
  intro snapshot
  have hfails (h : ∀ valuation, v.value c.healthType ≠ .ok valuation) :
      snapshot.Unvalued ∧ snapshot.verdict = .indeterminate := by
    cases hvalue : v.value c.healthType with
    | error reason => exact ⟨unvalued_of_value hvalue, (isBlank_of_value hvalue).verdict⟩
    | ok valuation => exact absurd hvalue (h valuation)
  refine ⟨fun r hr hmissing hkind => hfails fun valuation h => ?_,
    fun i hmisses hprice => hfails fun valuation h => ?_, fun hprice => ?_⟩
  · rw [View.holds_of_value h hr hkind] at hmissing
    cases hmissing
  · have hi := MarginAccount.participates_iff.mpr (.inr (.inl hmisses.1))
    obtain ⟨price, hfound, _⟩ := View.sides_of_value h hi
    rw [hfound] at hprice
    cases hprice
  · exact (evaluate_withBasket (View.value_withoutMissingOrders hprice c.healthType) time).symm

/-- A deposit of the quote token, and open orders in market 0 that were not observed. -/
def unobserved (rootBanks : Vector (Option (Observed RootBank)) tokenSlots) : View :=
  { (default : View) with
    account := { (default : Observed MarginAccount) with
      value := { (default : MarginAccount) with
        deposits := .ofFn fun i => if i = quoteIndex then whole 100 else 0
        inMarginBasket := .ofFn fun i => i.val == 0
        spotOpenOrders := .ofFn fun i => if i.val = 0 then ⟨6⟩ else .zero } }
    rootBanks
    oracles := .ofFn fun _ => some ⟨⟨4⟩, 0, { (default : OraclePrice) with
      aggregate := { (default : PriceInfo) with price := 1, status := .trading } }⟩ }

/-- The open orders are planned and missing, and the account is valued all the same. -/
theorem missing_orders_valued :
    let v := unobserved (.ofFn fun _ => some default)
    let snapshot := (⟨.maintenance, 1⟩ : Calculator).evaluate 1 v
    ⟨⟨6⟩, .openOrders 0⟩ ∈ Requirement.plan v.account.value v.group.value ∧
      v.holds (.openOrders 0) = false ∧ snapshot.collateral = whole 100 ∧
      snapshot.leverage = .defined 0 ∧ snapshot.verdict = .safe (whole 100) := by
  decide +kernel

theorem incomplete_unvalued_unless_orders_unobserved :
    let c : Calculator := ⟨.maintenance, 1⟩
    let v := unobserved (.ofFn fun _ => some default)
    let v' := unobserved (.ofFn fun _ => none)
    v.MissesOrders 0 ∧ c.evaluate 1 v = c.evaluate 1 v.withoutMissingOrders ∧
      (c.evaluate 1 v').Unvalued ∧ (c.evaluate 1 v').verdict = .indeterminate := by
  intro c v v'
  obtain ⟨_, _, hignored⟩ := incomplete_unvalued_unless_orders c 1 v
  obtain ⟨hlacking, _⟩ := incomplete_unvalued_unless_orders c 1 v'
  have hplanned : ⟨.zero, .rootBank 15⟩ ∈ Requirement.plan v'.account.value v'.group.value := by
    decide +kernel
  exact ⟨by decide +kernel, hignored (by decide +kernel),
    hlacking _ hplanned (by decide +kernel) nofun⟩

end Calculator

end Solvency
