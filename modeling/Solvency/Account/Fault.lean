import Solvency.Account.Kind

/-! Why a payload is refused. A fault is a cause; its wording is given once,
in `Fault.message` and `LayoutError.message`. -/

namespace Solvency

inductive Fault where
  | truncated (needed left : Nat)
  | trailing (left : Nat)
  | badMarker (what : String)
  | invalidBool (found : UInt8)
  | dataType (found : UInt8) (expected : DataType)
  | version (found : UInt8)
  | notInitialized
  | oracleCount (found limit : Nat)
  | nodeBankCount (found limit : Nat)
  | orderMarket (slot : Nat) (market : UInt8)
  | orderSide (slot : Nat) (side : UInt8) (sidesStart : Nat)
  | missingFlags (found required : UInt64)
  | freeExceedsTotal
  | priceStatus (found : UInt32)
  | priceMagic (found : UInt32)
  | priceVersion (found : UInt32)
  | priceAccountType (found : UInt32)
  | componentCount (found : UInt32) (limit : Nat)
  | other (reason : String)
deriving DecidableEq, Repr

inductive LayoutError where
  | unknownTag (tag : UInt8)
  | wrongLength (kind : AccountKind) (found : Nat)
  | malformed (kind : AccountKind) (fault : Fault) (offset : Nat)
deriving DecidableEq, Repr

def digitText (base n : Nat) : String :=
  String.ofList (Nat.toDigits base n)

/-- Flag bits are shown with at least eight binary digits. -/
def flagText (flags : UInt64) : String :=
  let digits := digitText 2 flags.toNat
  "AccountFlags(0b" ++ String.ofList (List.replicate (8 - digits.length) '0') ++ digits ++ ")"

namespace Fault

def message : Fault → String
  | truncated needed left => s!"truncated: needed {needed} bytes, {left} left"
  | trailing left => s!"{left} trailing bytes"
  | badMarker what => s!"bad {what} marker"
  | invalidBool found => s!"invalid bool byte {found}"
  | dataType found expected => s!"data type {found} does not match expected {expected.name}"
  | version found => s!"unsupported version {found}"
  | notInitialized => "account is not initialized"
  | oracleCount found limit => s!"num_oracles {found} exceeds {limit}"
  | nodeBankCount found limit => s!"num_node_banks {found} exceeds {limit}"
  | orderMarket slot market => s!"order slot {slot} references market {market}"
  | orderSide slot side sidesStart =>
    s!"order slot {slot} has side {side} (side array starts at {sidesStart})"
  | missingFlags found required =>
    "account flags " ++ flagText found ++ " missing 0b" ++ digitText 2 required.toNat
  | freeExceedsTotal => "free balance exceeds total"
  | priceStatus found => s!"unknown price status {found}"
  | priceMagic found => "bad magic 0x" ++ digitText 16 found.toNat
  | priceVersion found => s!"unsupported pyth version {found}"
  | priceAccountType found => s!"pyth account type {found} is not a price"
  | componentCount found limit => s!"{found} components exceeds {limit}"
  | other reason => reason

end Fault

namespace LayoutError

def kind? : LayoutError → Option AccountKind
  | unknownTag _ => none
  | wrongLength kind _ => some kind
  | malformed kind _ _ => some kind

def message : LayoutError → String
  | unknownTag tag => s!"Unknown account type tag: {tag}"
  | wrongLength kind found =>
    s!"Malformed {kind.name} layout: expected {kind.size} bytes, got {found}"
  | malformed kind fault offset =>
    s!"Malformed {kind.name} layout: {fault.message} at offset {offset}"

end LayoutError

end Solvency
