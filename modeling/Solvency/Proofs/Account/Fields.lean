import Mathlib.Algebra.GroupWithZero.Nat
import Solvency.Proofs.Account.Layouts

/-! Sequences of fields. Values of any types that are written one after another are read back in
that order, each up to its own end, and what is left is what follows the last of them. -/

namespace Solvency

/-- What records and arrays may be made of. -/
inductive Packed where
  | bool
  | fixed
  | address
  | tokenInfo
  | spotMarketInfo
  | perpMarketInfo
  | perpAccount
  | liquidityMiningInfo
  | priceInfo
  | priceComponent

namespace Packed

def Value : Packed → Type
  | bool => Bool
  | fixed => Fixed
  | address => Address
  | tokenInfo => TokenInfo
  | spotMarketInfo => SpotMarketInfo
  | perpMarketInfo => PerpMarketInfo
  | perpAccount => PerpAccount
  | liquidityMiningInfo => LiquidityMiningInfo
  | priceInfo => PriceInfo
  | priceComponent => PriceComponent

def codec : (item : Packed) → Codec item.Value
  | bool => Codec.bool
  | fixed => Codec.fixed
  | address => Codec.address
  | tokenInfo => TokenInfo.codec
  | spotMarketInfo => SpotMarketInfo.codec
  | perpMarketInfo => PerpMarketInfo.codec
  | perpAccount => PerpAccount.codec
  | liquidityMiningInfo => LiquidityMiningInfo.codec
  | priceInfo => PriceInfo.codec
  | priceComponent => PriceComponent.codec

/-- The bytes that one item takes up in an account. -/
def size : Packed → Nat
  | bool => 1
  | fixed => 16
  | address => 32
  | tokenInfo => 72
  | spotMarketInfo => 112
  | perpMarketInfo => 160
  | perpAccount => 96
  | liquidityMiningInfo => 64
  | priceInfo => 32
  | priceComponent => 96

theorem size_codec (item : Packed) : item.codec.size = item.size := by
  cases item <;> rfl

theorem codec_faithful (item : Packed) : item.codec.Faithful fun _ => True := by
  cases item with
  | bool => exact Codec.bool_faithful
  | fixed => exact Codec.fixed_faithful
  | address => exact Codec.address_faithful
  | tokenInfo => exact TokenInfo.codec_faithful
  | spotMarketInfo => exact SpotMarketInfo.codec_faithful
  | perpMarketInfo => exact PerpMarketInfo.codec_faithful
  | perpAccount => exact PerpAccount.codec_faithful
  | liquidityMiningInfo => exact LiquidityMiningInfo.codec_faithful
  | priceInfo => exact PriceInfo.codec_faithful
  | priceComponent => exact PriceComponent.codec_faithful

end Packed

inductive FieldType where
  | u8
  | u32
  | i32
  | u64
  | i64
  | u128
  | i128
  | packed (item : Packed)
  | array (n : Nat) (item : Packed)

namespace FieldType

def Value : FieldType → Type
  | u8 => UInt8
  | u32 => UInt32
  | i32 => Int32
  | u64 => UInt64
  | i64 => Int64
  | u128 => BitVec 128
  | i128 => Int128
  | packed item => item.Value
  | array n item => Vector item.Value n

def codec : (type : FieldType) → Codec type.Value
  | u8 => Codec.u8
  | u32 => Codec.u32
  | i32 => Codec.i32
  | u64 => Codec.u64
  | i64 => Codec.i64
  | u128 => Codec.u128
  | i128 => Codec.i128
  | packed item => item.codec
  | array n item => Codec.array n item.codec

def size : FieldType → Nat
  | u8 => 1
  | u32 | i32 => 4
  | u64 | i64 => 8
  | u128 | i128 => 16
  | packed item => item.size
  | array n item => n * item.size

theorem size_codec (type : FieldType) : type.codec.size = type.size := by
  cases type with
  | packed item => exact item.size_codec
  | array n item => exact congrArg (n * ·) item.size_codec
  | _ => rfl

theorem codec_faithful (type : FieldType) : type.codec.Faithful fun _ => True := by
  cases type with
  | u8 => exact Codec.u8_faithful
  | u32 => exact Codec.u32_faithful
  | i32 => exact Codec.i32_faithful
  | u64 => exact Codec.u64_faithful
  | i64 => exact Codec.i64_faithful
  | u128 => exact Codec.u128_faithful
  | i128 => exact Codec.i128_faithful
  | packed item => exact item.codec_faithful
  | array n item => exact (item.codec_faithful.array n).mono fun _ => by simp

end FieldType

theorem Reader.runFrom_finish (c : Cursor) : finish.runFrom c =
    (if c.rest = [] then .ok () else .error (c.fault (.trailing c.remaining)), c) := by
  rw [finish, runFrom_bind_of_ok (runFrom_get _)]
  simp only [List.isEmpty_iff]
  split <;> rfl

structure Field where
  type : FieldType
  value : type.Value

namespace Field

/-- Puts fields one after another behind what is written already. -/
def writeAll (buffer : Bytes) (fields : List Field) : Bytes :=
  fields.foldl (fun buffer field => buffer ++ field.type.codec.write field.value) buffer

/-- Reads a field of each type in order, with the offset at which it ends. -/
def readAll : List FieldType → Reader (List (Field × Nat))
  | [] => return []
  | type :: rest => do
    let value ← type.codec.read
    let stop := (← get).offset
    return (⟨type, value⟩, stop) :: (← readAll rest)

/-- Fields that lie one behind the other from an offset on, with the offsets at which they end. -/
def laidOut (offset : Nat) : List Field → List (Field × Nat)
  | [] => []
  | field :: rest =>
    (field, offset + field.type.size) :: laidOut (offset + field.type.size) rest

def totalSize (fields : List Field) : Nat := (fields.map (·.type.size)).sum

theorem writeAll_eq_append (buffer : Bytes) (fields : List Field) :
    writeAll buffer fields = buffer ++ writeAll [] fields := by
  induction fields generalizing buffer with
  | nil => exact (List.append_nil buffer).symm
  | cons field rest ih =>
    rw [writeAll, writeAll, List.foldl_cons, List.foldl_cons, ← writeAll, ← writeAll, ih,
      ih ([] ++ _), List.nil_append, List.append_assoc]

theorem writeAll_cons (field : Field) (rest : List Field) :
    writeAll [] (field :: rest) = field.type.codec.write field.value ++ writeAll [] rest :=
  writeAll_eq_append _ rest

theorem length_writeAll (fields : List Field) : (writeAll [] fields).length = totalSize fields := by
  induction fields with
  | nil => rfl
  | cons field rest ih =>
    rw [writeAll_cons, List.length_append, field.type.codec_faithful.length_write,
      field.type.size_codec, ih]
    rfl

theorem readAll_writeAll (fields : List Field) (kind : AccountKind) (offset : Nat) (extra : Bytes) :
    (readAll (fields.map type)).runFrom ⟨kind, offset, writeAll [] fields ++ extra⟩ =
      (.ok (laidOut offset fields), ⟨kind, offset + totalSize fields, extra⟩) := by
  induction fields generalizing offset with
  | nil => rfl
  | cons field rest ih =>
    have hfield := field.type.codec_faithful.read_write field.value trivial kind offset
      (writeAll [] rest ++ extra)
    rw [field.type.size_codec] at hfield
    rw [writeAll_cons, List.append_assoc, List.map_cons, readAll,
      Reader.runFrom_bind_of_ok hfield, Reader.runFrom_bind_of_ok (Reader.runFrom_get _),
      Reader.runFrom_bind_of_ok (ih (offset + field.type.size)), Reader.runFrom_pure, Nat.add_assoc]
    rfl

/-- Fields of any types are appended with exactly their sizes, and reading the same types in order
gives the same values, each up to the end of its size. Then nothing is left, and the reader may
finish, just if nothing was put behind them. -/
theorem sequence_reads_back (kind : AccountKind) (buffer extra : Bytes) (fields : List Field) :
    let written := writeAll [] fields
    let stop : Cursor := ⟨kind, totalSize fields, extra⟩
    writeAll buffer fields = buffer ++ written ∧ written.length = totalSize fields ∧
      (readAll (fields.map type)).runFrom (.start kind (written ++ extra)) =
        (.ok (laidOut 0 fields), stop) ∧
      (Reader.finish.runFrom stop).1 =
        if extra = [] then .ok ()
        else .error (.malformed kind (.trailing extra.length) (totalSize fields)) := by
  have hread := readAll_writeAll fields kind 0 extra
  rw [Nat.zero_add] at hread
  refine ⟨writeAll_eq_append buffer fields, length_writeAll fields, hread, ?_⟩
  rw [Reader.runFrom_finish]
  rfl

end Field

end Solvency
