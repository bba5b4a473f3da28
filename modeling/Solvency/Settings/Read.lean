import Solvency.Fixed.Text
import Solvency.Settings.Check
import Solvency.Toml.Document

/-! Reading settings. Unknown names are skipped, and what is missing keeps its default. -/

namespace Solvency

namespace Toml

/-- What stands under the given names, or, in an array, in their positions. A date has no names
in it. -/
def Value.members? (names : List String) : Value → Option Members
  | .table _ members => some members
  | .array items => some ⟨names.zip items⟩
  | .tables older newest => some ⟨names.zip (older ++ [.table .header newest])⟩
  | .dateTime _ => some {}
  | _ => none

def Value.natural? : Value → Option Nat
  | .integer n => if 0 ≤ n then some n.toNat else none
  | _ => none

def Value.natural32? (v : Value) : Option Nat := v.natural?.filter (· < 4294967296)

def Value.string? : Value → Option String
  | .string s => some s
  | _ => none

def Value.boolean? : Value → Option Bool
  | .boolean b => some b
  | _ => none

def Value.isEmpty : Value → Bool
  | .table _ members => members.isEmpty
  | .array items => items.isEmpty
  | _ => false

/-- What is present has to be readable. -/
def Members.getD? {α : Type} (members : Members) (name : String) (default : α)
    (read : Value → Option α) : Option α :=
  match members.find? name with
  | none => some default
  | some v => read v

end Toml

open Toml

def IdlePolicy.ofMode? (mode : String) (secs? : Option Value) : Option IdlePolicy :=
  match mode with
  | "never" => some .never
  | "immediate" => some .immediate
  | "after_idle" => do return .afterIdle (← (← secs?).natural?)
  | _ => none

/-- In an array the mode comes first, and nothing follows that the mode does not need. -/
def IdlePolicy.ofToml? : Value → Option IdlePolicy
  | .table _ members => do ofMode? (← (← members.find? "mode").string?) (members.find? "secs")
  | .array [.string "after_idle", secs] => ofMode? "after_idle" (some secs)
  | .array [.string mode] => ofMode? mode none
  | _ => none

def HealthType.ofName? : String → Option HealthType
  | "initial" => some .initial
  | "maintenance" => some .maintenance
  | _ => none

/-- The name of a type, or a table with nothing in it under that name alone. -/
def HealthType.ofToml? : Value → Option HealthType
  | .string name => ofName? name
  | .table _ ⟨[(name, v)]⟩ => if v.isEmpty then ofName? name else none
  | _ => none

def SyncSettings.ofToml? (v : Value) : Option SyncSettings := do
  let d : SyncSettings := {}
  let members ← v.members?
    ["staleness_tolerance_slots", "coalescing_window_ms", "idle_policy", "change_buffer"]
  return {
    stalenessToleranceSlots := ← members.getD? "staleness_tolerance_slots"
      d.stalenessToleranceSlots Value.natural?
    coalescingWindowMs := ← members.getD? "coalescing_window_ms" d.coalescingWindowMs
      Value.natural?
    idlePolicy := ← members.getD? "idle_policy" d.idlePolicy IdlePolicy.ofToml?
    changeBuffer := ← members.getD? "change_buffer" d.changeBuffer Value.natural? }

def TransportSettings.ofToml? (v : Value) : Option TransportSettings := do
  let d : TransportSettings := {}
  let members ← v.members? ["reconnect_delay_ms", "max_reconnect_attempts", "command_buffer"]
  return {
    reconnectDelayMs := ← members.getD? "reconnect_delay_ms" d.reconnectDelayMs Value.natural?
    maxReconnectAttempts := ← members.getD? "max_reconnect_attempts" d.maxReconnectAttempts
      Value.natural32?
    commandBuffer := ← members.getD? "command_buffer" d.commandBuffer Value.natural? }

/-- The threshold is text, so that it is not rounded twice. -/
def RiskSettings.ofToml? (v : Value) : Option RiskSettings := do
  let d : RiskSettings := {}
  let members ← v.members? ["health_type", "liquidation_threshold"]
  return {
    healthType := ← members.getD? "health_type" d.healthType HealthType.ofToml?
    liquidationThreshold := ← members.getD? "liquidation_threshold" d.liquidationThreshold
      fun v => v.string?.bind Fixed.ofText? }

def LoggingSettings.ofToml? (v : Value) : Option LoggingSettings := do
  let d : LoggingSettings := {}
  let members ← v.members? ["level", "json"]
  return {
    level := ← members.getD? "level" d.level Value.string?
    jsonLines := ← members.getD? "json" d.jsonLines Value.boolean? }

namespace Settings

def ofToml? (root : Members) : Option Settings := do
  return {
    sync := ← root.getD? "sync" {} SyncSettings.ofToml?
    transport := ← root.getD? "transport" {} TransportSettings.ofToml?
    risk := ← root.getD? "risk" {} RiskSettings.ofToml?
    logging := ← root.getD? "logging" {} LoggingSettings.ofToml? }

def ofText (text : String) : Except SettingsError Settings :=
  match Toml.read? text >>= ofToml? with
  | none => .error .unreadable
  | some settings => do
    settings.check
    return settings

/-- A file has to be valid UTF-8. -/
def ofFile (bytes : List UInt8) : Except SettingsError Settings :=
  match String.fromUTF8? ⟨bytes.toArray⟩ with
  | none => .error .unreadable
  | some text => ofText text

end Settings

end Solvency
