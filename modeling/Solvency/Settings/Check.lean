import Solvency.Settings.Basic
import Solvency.Text.Digits
import Solvency.Text.Quoted

/-! What settings have to satisfy. Ranges come first, and those of the transport only after those
of synchronisation hold. -/

namespace Solvency

inductive LogLevel where
  | error
  | warn
  | info
  | debug
  | trace
deriving DecidableEq

namespace LogLevel

def all : List LogLevel := [error, warn, info, debug, trace]

def name : LogLevel → String
  | error => "error"
  | warn => "warn"
  | info => "info"
  | debug => "debug"
  | trace => "trace"

def rank : LogLevel → Nat
  | error => 1
  | warn => 2
  | info => 3
  | debug => 4
  | trace => 5

/-- A level by its name in either case, or by its rank. -/
def ofText? (s : String) : Option LogLevel :=
  all.find? fun level => s.toLower == level.name || Digits.natural? s == some level.rank

end LogLevel

inductive SettingsError where
  | unreadable
  | outOfRange (names : List String)
  | thresholdNotPositive
  | idleWithoutDelay
  | unknownLevel (level : String)
deriving DecidableEq

def SettingsError.message? : SettingsError → Option String
  | unreadable => none
  | outOfRange _ => none
  | thresholdNotPositive => some "Configuration error: liquidation_threshold must be positive"
  | idleWithoutDelay =>
    some "Configuration error: after_idle needs a non-zero delay; use immediate instead"
  | unknownLevel level => some s!"Configuration error: unknown log level {Text.quoted level}"

structure Ranged where
  name : String
  low : Nat
  high : Nat
  value : Nat

def Ranged.holds (r : Ranged) : Bool := r.low ≤ r.value && r.value ≤ r.high

/-- In order of their names. -/
def SyncSettings.ranges (s : SyncSettings) : List Ranged := [
  ⟨"change_buffer", 16, 65536, s.changeBuffer⟩,
  ⟨"coalescing_window_ms", 0, 60000, s.coalescingWindowMs⟩,
  ⟨"staleness_tolerance_slots", 0, 10000, s.stalenessToleranceSlots⟩]

/-- In order of their names. -/
def TransportSettings.ranges (s : TransportSettings) : List Ranged := [
  ⟨"command_buffer", 1, 65536, s.commandBuffer⟩,
  ⟨"max_reconnect_attempts", 1, 1000, s.maxReconnectAttempts⟩,
  ⟨"reconnect_delay_ms", 1, 60000, s.reconnectDelayMs⟩]

/-- Names every setting that is out of range. -/
def checkRanges (ranges : List Ranged) : Except SettingsError Unit :=
  match ranges.filter (!·.holds) with
  | [] => .ok ()
  | broken => .error (.outOfRange (broken.map (·.name)))

def LoggingSettings.check (s : LoggingSettings) : Except SettingsError LogLevel :=
  match LogLevel.ofText? s.level with
  | some level => .ok level
  | none => .error (.unknownLevel s.level)

def Settings.check (s : Settings) : Except SettingsError Unit := do
  checkRanges s.sync.ranges
  checkRanges s.transport.ranges
  if s.risk.liquidationThreshold.raw ≤ 0 then throw .thresholdNotPositive
  if s.sync.idlePolicy = .afterIdle 0 then throw .idleWithoutDelay
  discard s.logging.check

end Solvency
