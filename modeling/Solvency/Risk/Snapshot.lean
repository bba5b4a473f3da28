import Solvency.Address
import Solvency.Fixed
import Solvency.Slot

/-! The result of valuing one margin account. -/

namespace Solvency

/-- Which weights value an account: those for new positions or those for liquidation. -/
inductive HealthType where
  | initial
  | maintenance
deriving DecidableEq

instance : Inhabited HealthType := ⟨.maintenance⟩

inductive UndefinedReason where
  | zeroCollateral
  | nonPositivePrice
  | overflow
  | incompleteView
deriving DecidableEq

inductive Leverage where
  | defined : Fixed → Leverage
  | undefined : UndefinedReason → Leverage
deriving DecidableEq

def Leverage.value? : Leverage → Option Fixed
  | defined value => some value
  | undefined _ => none

inductive Verdict where
  | safe (headroom : Fixed)
  | liquidatable (shortfall : Fixed)
  | indeterminate
deriving DecidableEq

def Verdict.isLiquidatable : Verdict → Bool
  | liquidatable _ => true
  | _ => false

inductive PositionKind where
  | spot
  | perp
  | quote
deriving DecidableEq

/-- One valued line. The index is a token for spot and quote lines, a market for perpetual ones. -/
structure Position where
  kind : PositionKind
  index : Nat
  amount : Fixed
  price : Fixed
  value : Fixed
  weighted : Fixed
deriving DecidableEq

structure Snapshot where
  marginAccount : Address
  slotRange : SlotRange
  healthType : HealthType
  collateral : Fixed
  liabilities : Fixed
  health : Fixed
  leverage : Leverage
  verdict : Verdict
  positions : List Position
  /-- What the clock showed, in nanoseconds since the beginning of 1970. -/
  computedAt : Nat
deriving DecidableEq

/-- Equal in everything but the time. -/
def Snapshot.sameState (s t : Snapshot) : Bool :=
  s.marginAccount = t.marginAccount && s.slotRange = t.slotRange && s.healthType = t.healthType &&
    s.collateral = t.collateral && s.liabilities = t.liabilities && s.health = t.health &&
    s.leverage = t.leverage && s.verdict = t.verdict && s.positions = t.positions

end Solvency
