import Solvency.Proofs.Account.Fields
import Solvency.Proofs.Account.Grammar
import Solvency.Proofs.Bytes.Pieces

/-! Sequences of reading steps that go on after failures. No step gets out of the payload or goes
back: a step that reads one value and fails stays where it was, and any other stops at the end of
the last piece that it consumed. -/

namespace Solvency

open Codec Reader Piece

/-- Data type, version, initialized flag and padding, each judged before the next is read. -/
def headerPieces (dataType : DataType) (versions : List UInt8) : List Piece :=
  [checked 1 (· == [dataType.tag]), checked 1 (· ∈ versions.map fun version => [version]),
    initialized, free 5]

/-- Price, confidence and status, of which those above 3 are refused, then what else there is. -/
def PriceInfo.pieces : List Piece :=
  [free 8, free 8, checked 4 (ofLittleEndian · ≤ 3), free 4, free 8]

def Packed.pieces : Packed → List Piece
  | bool => [strictBool]
  | fixed => [free 16]
  | address => [free 32]
  | tokenInfo => [free 32, free 32, free 1, free 7]
  | spotMarketInfo => free 32 :: List.replicate 5 (free 16)
  | perpMarketInfo => free 32 :: List.replicate 7 (free 16) ++ List.replicate 2 (free 8)
  | perpAccount => free 8 :: List.replicate 3 (free 16) ++ List.replicate 5 (free 8)
  | liquidityMiningInfo => List.replicate 2 (free 16) ++ List.replicate 4 (free 8)
  | priceInfo => PriceInfo.pieces
  | priceComponent => free 32 :: PriceInfo.pieces ++ PriceInfo.pieces

def FieldType.pieces : FieldType → List Piece
  | u8 => [free 1]
  | u32 | i32 => [free 4]
  | u64 | i64 => [free 8]
  | u128 | i128 => [free 16]
  | packed item => item.pieces
  | array n item => (List.replicate n item.pieces).flatten

theorem u8_takes : u8.Takes fun w => UInt8.ofBitVec (BitVec.ofNat 8 (ofLittleEndian w)) :=
  (word_takes 1).iso

theorem u32_takes : u32.Takes fun w => UInt32.ofBitVec (BitVec.ofNat 32 (ofLittleEndian w)) :=
  (word_takes 4).iso

theorem follows_u8_check {accepts : UInt8 → Bool} {fault : UInt8 → Fault} {ok : Bytes → Bool}
    (hok : ∀ byte, accepts byte = ok [byte]) :
    (u8.check accepts fault).read.Follows [checked 1 ok] := by
  refine u8_takes.follows_check fun w hw => ?_
  obtain ⟨byte, rfl⟩ := List.length_eq_one_iff.mp hw
  rw [← hok]
  simp [ofLittleEndian]

theorem follows_header (dataType : DataType) (versions : List UInt8) :
    (header dataType versions).read.Follows (headerPieces dataType versions) := by
  have hkind : (u8.check (· == dataType.tag) (.dataType · dataType)).read.Follows
      [checked 1 (· == [dataType.tag])] := follows_u8_check fun byte => by simp
  have hversion : (u8.check versions.contains .version).read.Follows
      [checked 1 (· ∈ versions.map fun version => [version])] :=
    follows_u8_check fun byte => by simp
  exact follows_iso <| follows_pair hkind <| follows_pair hversion <|
    follows_before follows_initialized (blank_takes 5).follows

theorem PriceStatus.follows_codec :
    PriceStatus.codec.read.Follows [checked 4 (ofLittleEndian · ≤ 3)] := by
  refine u32_takes.follows_refine fun w hw _ => ?_
  have hsmall : ofLittleEndian w < 2 ^ 32 := by
    have hlt := ofLittleEndian_lt w
    rwa [show w.length = 4 from hw] at hlt
  have hcode : (UInt32.ofBitVec (BitVec.ofNat 32 (ofLittleEndian w))).toNat = ofLittleEndian w := by
    rw [UInt32.toNat_ofBitVec, BitVec.toNat_ofNat, Nat.mod_eq_of_lt hsmall]
  by_cases h : ofLittleEndian w ≤ 3
  · obtain ⟨status, hstatus, _⟩ := ofCode?_of_le (hcode.symm ▸ h)
    rw [hstatus, decide_eq_true h]
    rfl
  · rw [ofCode?_eq_none (hcode.symm ▸ h), decide_eq_false h]
    rfl

theorem PriceInfo.follows_codec : PriceInfo.codec.read.Follows PriceInfo.pieces :=
  follows_iso <| follows_pair (word_takes 8).iso.follows <|
    follows_pair (word_takes 8).iso.follows <| follows_pair PriceStatus.follows_codec <|
    follows_pair u32_takes.follows (word_takes 8).iso.follows

theorem Packed.follows_codec (item : Packed) : item.codec.read.Follows item.pieces := by
  have hfixed : Codec.fixed.read.Follows [free 16] := (word_takes 16).iso.follows
  have haddress : Codec.address.read.Follows [free 32] := (word_takes 32).iso.follows
  have hu64 : u64.read.Follows [free 8] := (word_takes 8).iso.follows
  have hi64 : i64.read.Follows [free 8] := (word_takes 8).iso.follows
  cases item with
  | bool => exact follows_bool
  | fixed => exact hfixed
  | address => exact haddress
  | tokenInfo =>
    exact follows_iso <| follows_pair haddress <| follows_pair haddress <|
      follows_before u8_takes.follows (blank_takes 7).follows
  | spotMarketInfo =>
    exact follows_iso <| follows_pair haddress <| follows_pair hfixed <| follows_pair hfixed <|
      follows_pair hfixed <| follows_pair hfixed hfixed
  | perpMarketInfo =>
    have h : PerpMarketInfo.codec.read.Follows _ :=
      follows_iso <| follows_pair haddress <| follows_pair hfixed <| follows_pair hfixed <|
        follows_pair hfixed <| follows_pair hfixed <| follows_pair hfixed <|
        follows_pair hfixed <| follows_pair hfixed <| follows_pair hi64 hi64
    exact h
  | perpAccount =>
    have h : PerpAccount.codec.read.Follows _ :=
      follows_iso <| follows_pair hi64 <| follows_pair hfixed <| follows_pair hfixed <|
        follows_pair hfixed <| follows_pair hi64 <| follows_pair hi64 <| follows_pair hi64 <|
        follows_pair hi64 hu64
    exact h
  | liquidityMiningInfo =>
    have h : LiquidityMiningInfo.codec.read.Follows _ :=
      follows_iso <| follows_pair hfixed <| follows_pair hfixed <| follows_pair hu64 <|
        follows_pair hu64 <| follows_pair hu64 hu64
    exact h
  | priceInfo => exact PriceInfo.follows_codec
  | priceComponent =>
    have h : PriceComponent.codec.read.Follows _ :=
      follows_iso <| follows_pair haddress <|
        follows_pair PriceInfo.follows_codec PriceInfo.follows_codec
    exact h

theorem FieldType.follows_codec (type : FieldType) : type.codec.read.Follows type.pieces := by
  cases type with
  | u8 => exact u8_takes.follows
  | u32 => exact u32_takes.follows
  | i32 => exact (word_takes 4).iso.follows
  | u64 => exact (word_takes 8).iso.follows
  | i64 => exact (word_takes 8).iso.follows
  | u128 => exact (word_takes 16).follows
  | i128 => exact (word_takes 16).iso.follows
  | packed item => exact item.follows_codec
  | array n item => exact follows_readMany item.follows_codec n

/-- What a reader may be asked for, one after another. -/
inductive ReadStep where
  | take (n : Nat)
  | fixed (n : Nat)
  | skip (n : Nat)
  | expect (marker : Bytes) (what : String)
  | field (type : FieldType)
  | header (dataType : DataType) (versions : List UInt8)

namespace ReadStep

def Result : ReadStep → Type
  | take _ => Bytes
  | fixed n => BitVec (8 * n)
  | skip _ => Unit
  | expect _ _ => Unit
  | field type => type.Value
  | header _ _ => UInt8

def read : (step : ReadStep) → Reader step.Result
  | take n => Reader.take n
  | fixed n => (word n).read
  | skip n => (blank n).read
  | expect marker what => Reader.expect marker what
  | field type => type.codec.read
  | header dataType versions => (Solvency.header dataType versions).read

def pieces : ReadStep → List Piece
  | take n | fixed n | skip n => [free n]
  | expect marker _ => [checked marker.length (· == marker)]
  | field type => type.pieces
  | header dataType versions => headerPieces dataType versions

/-- Steps that ask for some bytes or for one number, flag or address. -/
def isSimple : ReadStep → Bool
  | take _ | fixed _ | skip _ => true
  | field (.packed .bool) | field (.packed .fixed) | field (.packed .address) => true
  | field (.packed _) | field (.array _ _) => false
  | field _ => true
  | expect _ _ | header _ _ => false

theorem follows_read (step : ReadStep) : step.read.Follows step.pieces := by
  cases step with
  | take n => exact follows_take n
  | fixed n => exact (word_takes n).follows
  | skip n => exact (blank_takes n).follows
  | expect marker what => exact follows_expect marker what
  | field type => exact type.follows_codec
  | header dataType versions => exact follows_header dataType versions

/-- A simple step reads one piece, which is never refused once it is consumed. -/
theorem pieces_of_isSimple {step : ReadStep} (h : step.isSimple = true) :
    ∃ piece, step.pieces = [piece] ∧ ∀ bytes, piece.judge bytes ≠ .refused := by
  cases step with
  | take n => exact ⟨_, rfl, judge_free n⟩
  | fixed n => exact ⟨_, rfl, judge_free n⟩
  | skip n => exact ⟨_, rfl, judge_free n⟩
  | expect => cases h
  | header => cases h
  | field type =>
    cases type with
    | packed item =>
      cases item with
      | bool => exact ⟨_, rfl, judge_strictBool⟩
      | fixed => exact ⟨_, rfl, judge_free 16⟩
      | address => exact ⟨_, rfl, judge_free 32⟩
      | _ => cases h
    | array => cases h
    | _ => exact ⟨_, rfl, judge_free _⟩

end ReadStep

namespace Cursor

/-- Goes on from wherever each step leaves off, also where it failed. -/
def after (c : Cursor) (steps : List ReadStep) : Cursor :=
  steps.foldl (fun c step => (step.read.runFrom c).2) c

/-- A place in a payload: what is left is what lies behind it. -/
structure Within (data : Bytes) (c : Cursor) : Prop where
  offset_le : c.offset ≤ data.length
  rest_eq : c.rest = data.drop c.offset

variable {data : Bytes} {c : Cursor}

theorem within_start (kind : AccountKind) (data : Bytes) : (start kind data).Within data :=
  ⟨Nat.zero_le _, rfl⟩

theorem Within.offset_add_remaining (h : c.Within data) :
    c.offset + c.remaining = data.length := by
  rw [remaining, h.rest_eq, List.length_drop]
  exact Nat.add_sub_of_le h.offset_le

theorem Within.advance (h : c.Within data) {n : Nat} (hn : n ≤ c.rest.length) :
    (c.advance n).Within data where
  offset_le := by
    rw [← h.offset_add_remaining]
    exact Nat.add_le_add_left hn _
  rest_eq := by
    simp only [Cursor.advance, h.rest_eq, List.drop_drop]

theorem Within.step (h : c.Within data) (step : ReadStep) :
    (step.read.runFrom c).2.Within data := by
  rw [(step.follows_read c).2]
  exact h.advance (total_walk_le _ _)

theorem Within.after (h : c.Within data) (steps : List ReadStep) :
    (c.after steps).Within data := by
  induction steps generalizing c with
  | nil => exact h
  | cons step rest ih => exact ih (h.step step)

/-- Whatever steps were taken, and whether they failed or not, the next one starts within the
payload, takes nothing from outside of it and does not go back. It stops at the end of the last
piece that it consumed, which is where it started if it fails and is simple. -/
theorem steps_stay_in_bounds (kind : AccountKind) (data : Bytes) (steps : List ReadStep)
    (step : ReadStep) :
    let before := (start kind data).after steps
    let result := (step.read.runFrom before).1
    let after := (step.read.runFrom before).2
    let consumed := (walk step.pieces before.rest).1
    before.offset + before.remaining = data.length ∧ before.offset ≤ after.offset ∧
      after.offset ≤ data.length ∧
      (∀ n bytes, ((take n).runFrom before).1 = .ok bytes →
        before.offset + n ≤ data.length ∧ bytes = (data.drop before.offset).take n) ∧
      result.isOk = (walk step.pieces before.rest).2 ∧ consumed <+: step.pieces ∧
      after.offset = before.offset + total consumed ∧
      (step.isSimple = true → result.isOk = false → after = before) := by
  intro before result after consumed
  have hbefore : before.Within data := (within_start kind data).after steps
  have hafter : after.Within data := hbefore.step step
  obtain ⟨hresult, hmoved⟩ := step.follows_read before
  have hoffset : after.offset = before.offset + total consumed := congrArg Cursor.offset hmoved
  refine ⟨hbefore.offset_add_remaining, ?_, hafter.offset_le, ?_, hresult, walk_prefix _ _, hoffset,
    ?_⟩
  · rw [hoffset]
    exact Nat.le_add_right _ _
  · intro n bytes htake
    rw [runFrom_take_eq] at htake
    split at htake
    case isTrue hn =>
      cases htake
      have hlength := hbefore.offset_add_remaining
      refine ⟨?_, by rw [hbefore.rest_eq]⟩
      rw [← hlength]
      exact Nat.add_le_add_left hn _
    case isFalse => cases htake
  · intro hsimple hfailed
    obtain ⟨piece, hpieces, hkept⟩ := ReadStep.pieces_of_isSimple hsimple
    rw [hresult, hpieces] at hfailed
    have hnone : (walk step.pieces before.rest).1 = [] := by
      rw [hpieces, walk_eq_nil_of_not_refused hkept hfailed]
    rw [hnone] at hmoved
    exact hmoved

end Cursor

end Solvency
