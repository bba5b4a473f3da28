import Solvency.Fixed.Text
import Solvency.Risk.Snapshot
import Solvency.Text.Calendar
import Solvency.Text.Json

/-! A snapshot as JSON text. Addresses are lists of bytes, amounts are decimal text, and
the time is a moment of the calendar. -/

namespace Solvency

open JsonValue

def Fixed.json (x : Fixed) : JsonValue := string x.text

def HealthType.name : HealthType → String
  | initial => "initial"
  | maintenance => "maintenance"

def UndefinedReason.name : UndefinedReason → String
  | zeroCollateral => "zero_collateral"
  | nonPositivePrice => "non_positive_price"
  | overflow => "overflow"
  | incompleteView => "incomplete_view"

def PositionKind.name : PositionKind → String
  | spot => "spot"
  | perp => "perp"
  | quote => "quote"

def Leverage.json : Leverage → JsonValue
  | defined value => object [("state", string "defined"), ("value", value.json)]
  | undefined reason => object [("state", string "undefined"), ("value", string reason.name)]

def Verdict.json : Verdict → JsonValue
  | safe headroom => object [("verdict", string "safe"), ("headroom", headroom.json)]
  | liquidatable shortfall =>
    object [("verdict", string "liquidatable"), ("shortfall", shortfall.json)]
  | indeterminate => object [("verdict", string "indeterminate")]

def Position.json (p : Position) : JsonValue :=
  object [("kind", string p.kind.name), ("index", number p.index), ("amount", p.amount.json),
    ("price", p.price.json), ("value", p.value.json), ("weighted", p.weighted.json)]

def SlotRange.json (range : SlotRange) : JsonValue :=
  object [("min", number range.min), ("max", number range.max)]

def Snapshot.json (s : Snapshot) : JsonValue :=
  object [
    ("margin_account", array (s.marginAccount.bytes.map fun b => number b.toNat)),
    ("slot_range", s.slotRange.json),
    ("health_type", string s.healthType.name),
    ("collateral", s.collateral.json),
    ("liabilities", s.liabilities.json),
    ("health", s.health.json),
    ("leverage", s.leverage.json),
    ("verdict", s.verdict.json),
    ("positions", array (s.positions.map Position.json)),
    ("computed_at", string (Calendar.instantText s.computedAt))]

end Solvency
