import Solvency.Bytes.Cursor
import Solvency.Fixed
import Solvency.Address

/-! A codec describes a stretch of bytes once, and both directions come from
the description. Records are sequences of codecs reshaped by `iso`, and checks
on what was read are put where they are made by `refine`. -/

namespace Solvency

structure Int128 where
  bits : BitVec 128
deriving DecidableEq, Inhabited

def Int128.toInt (n : Int128) : Int := n.bits.toInt

/-- Consecutive bytes that hold one value. -/
structure Codec (α : Type) where
  size : Nat
  read : Reader α
  write : α → Bytes

namespace Codec

/-- The `n` low bytes of a number, least significant first. -/
def littleEndian : (n : Nat) → Nat → Bytes
  | 0, _ => []
  | n + 1, value => UInt8.ofNat value :: littleEndian n (value / 256)

def ofLittleEndian (bytes : Bytes) : Nat :=
  bytes.foldr (fun b n => b.toNat + 256 * n) 0

def word (n : Nat) : Codec (BitVec (8 * n)) where
  size := n
  read := return BitVec.ofNat (8 * n) (ofLittleEndian (← Reader.take n))
  write value := littleEndian n value.toNat

/-- Bytes that carry nothing: passed over when read, zero when written. -/
def blank (n : Nat) : Codec Unit where
  size := n
  read := do let _ ← Reader.take n
  write _ := List.replicate n 0

def marker (bytes : Bytes) (what : String) : Codec Unit where
  size := bytes.length
  read := Reader.expect bytes what
  write _ := bytes

def pair {α β : Type} (first : Codec α) (second : Codec β) : Codec (α × β) where
  size := first.size + second.size
  read := do
    let a ← first.read
    let b ← second.read
    return (a, b)
  write value := first.write value.1 ++ second.write value.2

def before {α : Type} (first : Codec α) (second : Codec Unit) : Codec α where
  size := first.size + second.size
  read := do
    let a ← first.read
    second.read
    return a
  write value := first.write value ++ second.write ()

def after {α : Type} (second : Codec α) (first : Codec Unit) : Codec α where
  size := first.size + second.size
  read := do
    first.read
    second.read
  write value := first.write () ++ second.write value

/-- The same bytes under another type. -/
def iso {α β : Type} (c : Codec α) (f : α → β) (g : β → α) : Codec β where
  size := c.size
  read := return f (← c.read)
  write value := c.write (g value)

/-- Values that not every reading gives. A refusal is reported where the bytes end;
`decode` also learns where they started. -/
def refine {α β : Type} (c : Codec α) (decode : Nat → α → Except Fault β) (encode : β → α) :
    Codec β where
  size := c.size
  read := do
    let start := (← get).offset
    let a ← c.read
    match decode start a with
    | .ok b => return b
    | .error fault => Reader.fail fault
  write value := c.write (encode value)

def check {α : Type} (c : Codec α) (ok : α → Bool) (fault : α → Fault) : Codec α :=
  c.refine (fun _ a => if ok a then .ok a else .error (fault a)) id

def readMany {α : Type} (item : Reader α) : (n : Nat) → Reader (Vector α n)
  | 0 => return #v[]
  | n + 1 => do
    let first ← readMany item n
    return first.push (← item)

def array {α : Type} (n : Nat) (item : Codec α) : Codec (Vector α n) where
  size := n * item.size
  read := readMany item.read n
  write values := values.toList.flatMap item.write

/-- A count, then bytes whose reading depends on it. Their length does not. -/
def counted {α β : Type} (count : Codec α) (size : Nat) (body : α → Reader β)
    (write : β → Bytes) (countOf : β → α) : Codec β where
  size := count.size + size
  read := do body (← count.read)
  write value := count.write (countOf value) ++ write value

def u8 : Codec UInt8 := (word 1).iso UInt8.ofBitVec UInt8.toBitVec

def u32 : Codec UInt32 := (word 4).iso UInt32.ofBitVec UInt32.toBitVec

def u64 : Codec UInt64 := (word 8).iso UInt64.ofBitVec UInt64.toBitVec

def i32 : Codec Int32 := (word 4).iso Int32.ofBitVec Int32.toBitVec

def i64 : Codec Int64 := (word 8).iso Int64.ofBitVec Int64.toBitVec

def u128 : Codec (BitVec 128) := word 16

def i128 : Codec Int128 := (word 16).iso Int128.mk Int128.bits

def fixed : Codec Fixed := (word 16).iso Fixed.ofBits Fixed.bits

def address : Codec Address := (word 32).iso Address.mk Address.bits

/-- One byte, 0 or 1. Anything else is refused with the byte left unread. -/
def bool : Codec Bool where
  size := 1
  read := do
    let start ← get
    match ← u8.read with
    | 0 => return false
    | 1 => return true
    | found =>
      set start
      Reader.fail (.invalidBool found)
  write value := [if value then 1 else 0]

/-- A whole payload: its length is settled before any field is read. -/
def unpack {α : Type} (c : Codec α) (kind : AccountKind) (data : Bytes) : Except LayoutError α :=
  if data.length = kind.size then
    (Reader.runFrom (do let a ← c.read; Reader.finish; return a) (.start kind data)).1
  else
    .error (.wrongLength kind data.length)

end Codec

end Solvency
