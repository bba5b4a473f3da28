import Solvency.Account.Entity
import Solvency.Failure

/-! What the valuation of a margin account refers to beyond the account and its group. -/

namespace Solvency

structure Requirement where
  address : Address
  role : Role
deriving DecidableEq

namespace MarginAccount

def participates (a : MarginAccount) (i : Nat) : Bool :=
  a.hasBalance i || (a.basketOpenOrders? i).isSome || (a.perpAccount? i).isSome

end MarginAccount

namespace Requirement

def ofToken (account : MarginAccount) (group : Group) (i : Fin tokenSlots) : List Requirement :=
  if account.hasBalance i then [⟨(group.tokens.get i).rootBank, .rootBank i⟩] else []

/-- The oracle of every market with exposure, and its open orders and perpetual market where the
account has any there. An oracle that is not configured is required at the zero address. -/
def ofMarket (account : MarginAccount) (group : Group) (i : Fin marketSlots) : List Requirement :=
  if account.participates i then
    ⟨(group.oracle? i).getD .zero, .oracle i⟩ ::
      ((account.basketOpenOrders? i).toList.map (⟨·, .openOrders i⟩) ++
        (account.perpAccount? i).toList.map fun _ =>
          ⟨(group.perpMarkets.get i).perpMarket, .perpMarket i⟩)
  else
    []

def plan (account : MarginAccount) (group : Group) : List Requirement :=
  (List.finRange tokenSlots).flatMap (ofToken account group) ++
    (List.finRange marketSlots).flatMap (ofMarket account group)

end Requirement

end Solvency
