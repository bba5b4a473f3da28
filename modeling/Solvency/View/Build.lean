import Solvency.View.Plan

/-! Composing a view from what has been observed. Nothing is fetched here: a part
that is absent, of another kind or too far away in time is a failure. -/

namespace Solvency

structure Versioned where
  entity : Entity
  /-- The slot at which the account was written. -/
  slot : Slot
  /-- The last slot through which it is known to be unchanged. -/
  observedSlot : Slot
deriving DecidableEq

/-- A value together with where and when it was observed. -/
structure Observed (α : Type) where
  address : Address
  slot : Slot
  value : α
deriving DecidableEq, Inhabited

structure View where
  account : Observed MarginAccount
  group : Observed Group
  rootBanks : Vector (Option (Observed RootBank)) tokenSlots
  oracles : Vector (Option (Observed OraclePrice)) marketSlots
  openOrders : Vector (Option (Observed OpenOrders)) marketSlots
  perpMarkets : Vector (Option (Observed PerpMarket)) marketSlots
  slots : SlotRange
deriving DecidableEq, Inhabited

/-- What can be seen at an address now. -/
abbrev Lookup := Address → Option Versioned

namespace Lookup

/-- The account at an address, if it is of the kind that its role asks for. -/
def resolve (lookup : Lookup) (r : Requirement) : Except Failure (Observed Entity) :=
  if r.address = .zero then
    .error (.missing r.address r.role)
  else
    match lookup r.address with
    | none => .error (.missing r.address r.role)
    | some v =>
      if v.entity.kind = r.role.kind then
        .ok ⟨r.address, v.observedSlot, v.entity⟩
      else
        .error (.wrongKind r.address r.role.kind v.entity.kind)

def resolveAs {α : Type} (lookup : Lookup) (r : Requirement) (as? : Entity → Option α) :
    Except Failure (Observed α) := do
  let seen ← lookup.resolve r
  match as? seen.value with
  | some value => return ⟨seen.address, seen.slot, value⟩
  | none => throw (.wrongKind r.address r.role.kind seen.value.kind)

def account (lookup : Lookup) (address : Address) : Except Failure (Observed MarginAccount) :=
  lookup.resolveAs ⟨address, .marginAccount⟩ Entity.marginAccount?

def group (lookup : Lookup) (address : Address) : Except Failure (Observed Group) :=
  lookup.resolveAs ⟨address, .group⟩ Entity.group?

abbrev Parts := List (Role × Observed Entity)

def Parts.find? {α : Type} (parts : Parts) (role : Role) (as? : Entity → Option α) :
    Option (Observed α) := do
  let seen ← parts.lookup role
  return ⟨seen.address, seen.slot, ← as? seen.value⟩

def Parts.slots (parts : Parts) (account group : Slot) : SlotRange :=
  parts.foldl (fun range (_, seen) => range.extend seen.slot)
    ((SlotRange.ofSlot account).extend group)

/-- The view of a margin account: every requirement resolved in order, all of them observed
within `tolerance` slots of each other. -/
def build (lookup : Lookup) (tolerance : Nat) (address : Address) : Except Failure View := do
  let account ← lookup.account address
  let group ← lookup.group account.value.group
  let parts : Parts ← (Requirement.plan account.value group.value).mapM fun r =>
    return (r.role, ← lookup.resolve r)
  let slots := parts.slots account.slot group.slot
  if tolerance < slots.spread then
    throw (.stale slots tolerance)
  return {
    account
    group
    rootBanks := Vector.ofFn fun i => parts.find? (.rootBank i) Entity.rootBank?
    oracles := Vector.ofFn fun i => parts.find? (.oracle i) Entity.oraclePrice?
    openOrders := Vector.ofFn fun i => parts.find? (.openOrders i) Entity.openOrders?
    perpMarkets := Vector.ofFn fun i => parts.find? (.perpMarket i) Entity.perpMarket?
    slots }

/-- Every address the view is known to need so far. An absent account or group hides what
lies behind it. -/
def requirements (lookup : Lookup) (address : Address) : List Requirement :=
  ⟨address, .marginAccount⟩ ::
    match lookup.account address with
    | .error _ => []
    | .ok account => ⟨account.value.group, .group⟩ ::
      match lookup.group account.value.group with
      | .error _ => []
      | .ok group => (Requirement.plan account.value group.value).filter (·.address.isSet)

end Lookup

namespace View

def dependencies (v : View) : List Address :=
  [v.account.address, v.group.address] ++
    v.rootBanks.toList.reduceOption.map (·.address) ++
    v.oracles.toList.reduceOption.map (·.address) ++
    v.openOrders.toList.reduceOption.map (·.address) ++
    v.perpMarkets.toList.reduceOption.map (·.address)

end View

end Solvency
