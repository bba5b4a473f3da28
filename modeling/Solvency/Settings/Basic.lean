import Solvency.Risk.Snapshot

/-! The settings of an engine, their defaults and the checks they have to pass. -/

namespace Solvency

/-- When an address that no watched account needs any more is given up. -/
inductive IdlePolicy where
  | never
  | immediate
  | afterIdle (secs : Nat)
deriving DecidableEq

structure SyncSettings where
  /-- The widest spread of slots that a view may have. -/
  stalenessToleranceSlots : Nat := 0
  /-- Changes within this time lead to one recomposition. -/
  coalescingWindowMs : Nat := 50
  idlePolicy : IdlePolicy := .immediate
  /-- Room for events between the registry and the scheduler. -/
  changeBuffer : Nat := 1024
deriving DecidableEq

structure TransportSettings where
  reconnectDelayMs : Nat := 500
  maxReconnectAttempts : Nat := 10
  commandBuffer : Nat := 256
deriving DecidableEq

structure RiskSettings where
  healthType : HealthType := .maintenance
  /-- Liquidatable once liabilities exceed collateral times this. -/
  liquidationThreshold : Fixed := 1
deriving DecidableEq

structure LoggingSettings where
  level : String := "info"
  jsonLines : Bool := false
deriving DecidableEq

structure Settings where
  sync : SyncSettings := {}
  transport : TransportSettings := {}
  risk : RiskSettings := {}
  logging : LoggingSettings := {}
deriving DecidableEq

end Solvency
