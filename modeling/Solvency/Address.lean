/-! Addresses: thirty-two bytes. The zero address stands for an unset reference. -/

namespace Solvency

/-- Thirty-two bytes, kept as the number they spell from the least significant byte up. -/
structure Address where
  bits : BitVec 256
deriving DecidableEq

namespace Address

instance : Inhabited Address := ⟨⟨0⟩⟩

def zero : Address := ⟨0⟩

def isSet (a : Address) : Bool := a != zero

def byte (a : Address) (i : Nat) : UInt8 :=
  UInt8.ofNat (a.bits.toNat >>> (8 * i))

def bytes (a : Address) : List UInt8 :=
  (List.range 32).map a.byte

/-- Reads up to thirty-two bytes; missing ones are zero. -/
def ofBytes (bytes : List UInt8) : Address :=
  ⟨BitVec.ofNat 256 (bytes.foldr (fun b n => b.toNat + 256 * n) 0)⟩

def base58Alphabet : List Char :=
  "123456789ABCDEFGHJKLMNPQRSTUVWXYZabcdefghijkmnopqrstuvwxyz".toList

def base58Digits (n : Nat) : List Char :=
  if n = 0 then [] else base58Digits (n / 58) ++ [base58Alphabet.getD (n % 58) '1']
termination_by n

/-- The bytes as one big-endian number in base 58; each leading zero byte adds a `1`. -/
def base58 (a : Address) : String :=
  let zeros := (a.bytes.takeWhile (· == 0)).length
  let number := a.bytes.foldl (fun n b => 256 * n + b.toNat) 0
  String.ofList (List.replicate zeros '1' ++ base58Digits number)

instance : Ord Address where
  compare a b := compare a.bytes b.bytes

end Address

end Solvency
