import Solvency.Risk.Report
import Solvency.Settings.Basic

/-! Settings as JSON text. -/

namespace Solvency

open JsonValue

def IdlePolicy.json : IdlePolicy → JsonValue
  | never => object [("mode", string "never")]
  | immediate => object [("mode", string "immediate")]
  | afterIdle secs => object [("mode", string "after_idle"), ("secs", number secs)]

def SyncSettings.json (s : SyncSettings) : JsonValue := object [
  ("staleness_tolerance_slots", number s.stalenessToleranceSlots),
  ("coalescing_window_ms", number s.coalescingWindowMs),
  ("idle_policy", s.idlePolicy.json),
  ("change_buffer", number s.changeBuffer)]

def TransportSettings.json (s : TransportSettings) : JsonValue := object [
  ("reconnect_delay_ms", number s.reconnectDelayMs),
  ("max_reconnect_attempts", number s.maxReconnectAttempts),
  ("command_buffer", number s.commandBuffer)]

def RiskSettings.json (s : RiskSettings) : JsonValue := object [
  ("health_type", string s.healthType.name),
  ("liquidation_threshold", s.liquidationThreshold.json)]

def LoggingSettings.json (s : LoggingSettings) : JsonValue := object [
  ("level", string s.level),
  ("json", bool s.jsonLines)]

def Settings.json (s : Settings) : JsonValue := object [
  ("sync", s.sync.json),
  ("transport", s.transport.json),
  ("risk", s.risk.json),
  ("logging", s.logging.json)]

end Solvency
