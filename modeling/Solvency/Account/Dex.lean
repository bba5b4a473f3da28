import Solvency.Bytes.Codec

/-! Accounts of the spot exchange: flag bits between a fixed head and tail. -/

namespace Solvency

structure AccountFlags where
  bits : UInt64
deriving DecidableEq, Inhabited

namespace AccountFlags

def initialized : UInt64 := 1

def market : UInt64 := 2

def openOrders : UInt64 := 4

def disabled : UInt64 := 128

def contains (flags : AccountFlags) (mask : UInt64) : Bool := flags.bits &&& mask == mask

def isDisabled (flags : AccountFlags) : Bool := flags.contains disabled

def text (flags : AccountFlags) : String := flagText flags.bits

end AccountFlags

namespace Dex

open Codec

def head : Codec Unit := marker "serum".toUTF8.toList "serum head"

def tail : Codec Unit := marker "padding".toUTF8.toList "serum tail"

/-- The head and the flags, of which some are required. -/
def flags (required : UInt64) : Codec AccountFlags :=
  ((u64.iso AccountFlags.mk AccountFlags.bits).after head).check (·.contains required)
    (.missingFlags ·.bits required)

end Dex

end Solvency
