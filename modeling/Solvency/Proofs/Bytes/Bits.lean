import Mathlib.Data.List.GetD
import Solvency.Proofs.Bytes.Faithful

/-! The bits of a payload, and the numbers that stand at places of it. Bit `p` is bit
`p % 8` of byte `p / 8`, so a little-endian number has the bits of its bytes in order. -/

namespace Solvency

def bit (x : Bytes) (p : Nat) : Bool := (x.getD (p / 8) 0).toNat.testBit (p % 8)

/-- The number in the `width` bytes from `start` on. -/
def natAt (x : Bytes) (start width : Nat) : Nat :=
  Codec.ofLittleEndian ((x.drop start).take width)

def InBytes (start width p : Nat) : Prop := 8 * start ≤ p ∧ p < 8 * (start + width)

@[simp] theorem bit_nil (p : Nat) : bit [] p = false := by simp [bit]

theorem bit_cons (b : UInt8) (x : Bytes) (p : Nat) :
    bit (b :: x) p = if p < 8 then b.toNat.testBit p else bit x (p - 8) := by
  by_cases hp : p < 8
  · have hzero : p / 8 = 0 := by omega
    have hmod : p % 8 = p := by omega
    simp [bit, hp, hzero, hmod]
  · have hdiv : p / 8 = (p - 8) / 8 + 1 := by omega
    have hmod : p % 8 = (p - 8) % 8 := by omega
    rw [if_neg hp, bit, bit, hdiv, hmod, List.getD_cons_succ]

theorem bit_append (x y : Bytes) (p : Nat) :
    bit (x ++ y) p = if p < 8 * x.length then bit x p else bit y (p - 8 * x.length) := by
  have hlt : p / 8 < x.length ↔ p < 8 * x.length := by omega
  by_cases hp : p < 8 * x.length
  · rw [if_pos hp, bit, bit, List.getD_append _ _ _ _ (hlt.mpr hp)]
  · have hdiv : p / 8 - x.length = (p - 8 * x.length) / 8 := by omega
    have hmod : p % 8 = (p - 8 * x.length) % 8 := by omega
    rw [if_neg hp, bit, bit, List.getD_append_right _ _ _ _ (by omega), hdiv, hmod]

theorem bit_drop (x : Bytes) (start p : Nat) : bit (x.drop start) p = bit x (8 * start + p) := by
  have hdiv : (8 * start + p) / 8 = start + p / 8 := by omega
  have hmod : (8 * start + p) % 8 = p % 8 := by omega
  simp only [bit, List.getD_eq_getElem?_getD, List.getElem?_drop, hdiv, hmod]

theorem bit_take (x : Bytes) {width p : Nat} (hp : p < 8 * width) :
    bit (x.take width) p = bit x p := by
  have hlt : p / 8 < width := by omega
  simp only [bit, List.getD_eq_getElem?_getD, List.getElem?_take_of_lt hlt]

theorem bit_window (x : Bytes) (start : Nat) {width p : Nat} (hp : p < 8 * width) :
    bit ((x.drop start).take width) p = bit x (8 * start + p) := by
  rw [bit_take _ hp, bit_drop]

theorem bit_of_length_le {x : Bytes} {p : Nat} (h : 8 * x.length ≤ p) : bit x p = false := by
  have hle : x.length ≤ p / 8 := by omega
  rw [bit, List.getD_eq_default _ _ hle]
  exact Nat.zero_testBit _

theorem bit_replicate_zero (n p : Nat) : bit (List.replicate n 0) p = false := by
  simp only [bit, List.getD_eq_getElem?_getD, List.getElem?_replicate]
  split <;> simp

theorem byte_ext {b b' : UInt8} (h : ∀ p < 8, b.toNat.testBit p = b'.toNat.testBit p) : b = b' := by
  refine UInt8.toNat_inj.mp (Nat.eq_of_testBit_eq fun p => ?_)
  by_cases hp : p < 8
  · exact h p hp
  · have hpow : 2 ^ 8 ≤ 2 ^ p := Nat.pow_le_pow_right (by decide) (by omega)
    rw [Nat.testBit_lt_two_pow (Nat.lt_of_lt_of_le b.toNat_lt hpow),
      Nat.testBit_lt_two_pow (Nat.lt_of_lt_of_le b'.toNat_lt hpow)]

theorem eq_of_bits {x y : Bytes} (hlength : x.length = y.length)
    (h : ∀ p < 8 * x.length, bit x p = bit y p) : x = y := by
  induction x generalizing y with
  | nil => exact (List.eq_nil_of_length_eq_zero hlength.symm).symm
  | cons b x ih =>
    obtain _ | ⟨b', y⟩ := y
    · cases hlength
    have hbyte : b = b' := byte_ext fun p hp => by
      simpa [bit_cons, hp] using h p (by simp only [List.length_cons]; omega)
    have hrest : x = y := ih (by simpa using hlength) fun p hp => by
      have hbits := h (p + 8) (by simp only [List.length_cons]; omega)
      rwa [bit_cons, bit_cons, if_neg (by omega), if_neg (by omega), Nat.add_sub_cancel] at hbits
    rw [hbyte, hrest]

theorem window_eq_of_bits {x y : Bytes} {start width : Nat} (hx : start + width ≤ x.length)
    (hy : start + width ≤ y.length)
    (h : ∀ p, 8 * start ≤ p → p < 8 * (start + width) → bit x p = bit y p) :
    (x.drop start).take width = (y.drop start).take width := by
  have hlx : ((x.drop start).take width).length = width := by
    rw [List.length_take, List.length_drop]; omega
  have hly : ((y.drop start).take width).length = width := by
    rw [List.length_take, List.length_drop]; omega
  refine eq_of_bits (hlx.trans hly.symm) fun p hp => ?_
  rw [hlx] at hp
  rw [bit_window _ _ hp, bit_window _ _ hp]
  exact h _ (by omega) (by omega)

namespace Codec

theorem ofLittleEndian_cons (b : UInt8) (x : Bytes) :
    ofLittleEndian (b :: x) = b.toNat + 256 * ofLittleEndian x := rfl

theorem littleEndian_ofLittleEndian (x : Bytes) :
    littleEndian x.length (ofLittleEndian x) = x := by
  induction x with
  | nil => rfl
  | cons b x ih =>
    have hlow : UInt8.ofNat (b.toNat + 256 * ofLittleEndian x) = b := by
      apply UInt8.toNat_inj.mp
      rw [UInt8.toNat_ofNat', Nat.add_mul_mod_self_left]
      exact Nat.mod_eq_of_lt b.toNat_lt
    have hhigh : (b.toNat + 256 * ofLittleEndian x) / 256 = ofLittleEndian x := by
      have := b.toNat_lt
      omega
    rw [ofLittleEndian_cons, List.length_cons, littleEndian, hlow, hhigh, ih]

theorem ofLittleEndian_lt (x : Bytes) : ofLittleEndian x < 256 ^ x.length := by
  induction x with
  | nil => decide
  | cons b x ih =>
    have := b.toNat_lt
    rw [ofLittleEndian_cons, List.length_cons, Nat.pow_succ]
    omega

theorem testBit_ofLittleEndian (x : Bytes) (p : Nat) :
    (ofLittleEndian x).testBit p = bit x p := by
  induction x generalizing p with
  | nil => simp [ofLittleEndian]
  | cons b x ih =>
    have hsum : b.toNat + 256 * ofLittleEndian x = 2 ^ 8 * ofLittleEndian x + b.toNat := by omega
    rw [ofLittleEndian_cons, bit_cons, hsum, Nat.testBit_two_pow_mul_add _ b.toNat_lt, ih]

theorem bit_littleEndian {n p : Nat} (hp : p < 8 * n) (value : Nat) :
    bit (littleEndian n value) p = value.testBit p := by
  induction n generalizing p value with
  | zero => omega
  | succ n ih =>
    rw [littleEndian, bit_cons]
    split
    · have hmod : (UInt8.ofNat value).toNat = value % 2 ^ 8 := UInt8.toNat_ofNat'
      rw [hmod, Nat.testBit_mod_two_pow]
      simp [*]
    · have hbase : 256 = 2 ^ 8 := rfl
      rw [ih (by omega), hbase, Nat.testBit_div_two_pow, Nat.sub_add_cancel (by omega)]

end Codec

theorem natAt_lt (x : Bytes) (start width : Nat) : natAt x start width < 256 ^ width := by
  have hlength : ((x.drop start).take width).length ≤ width := List.length_take_le _ _
  exact Nat.lt_of_lt_of_le (Codec.ofLittleEndian_lt _) (Nat.pow_le_pow_right (by decide) hlength)

theorem toNat_u8_natAt (x : Bytes) (start : Nat) :
    (UInt8.ofNat (natAt x start 1)).toNat = natAt x start 1 :=
  UInt8.toNat_ofNat_of_lt (natAt_lt x start 1)

theorem toNat_u32_natAt (x : Bytes) (start : Nat) :
    (UInt32.ofNat (natAt x start 4)).toNat = natAt x start 4 :=
  UInt32.toNat_ofNat_of_lt (natAt_lt x start 4)

theorem toNat_u64_natAt (x : Bytes) (start : Nat) :
    (UInt64.ofNat (natAt x start 8)).toNat = natAt x start 8 :=
  UInt64.toNat_ofNat_of_lt (natAt_lt x start 8)

theorem testBit_natAt (x : Bytes) (start : Nat) {width p : Nat} (hp : p < 8 * width) :
    (natAt x start width).testBit p = bit x (8 * start + p) := by
  rw [natAt, Codec.testBit_ofLittleEndian, bit_window _ _ hp]

theorem natAt_eq_of_bits {x y : Bytes} {start width : Nat} (hx : start + width ≤ x.length)
    (hy : start + width ≤ y.length) (h : ∀ p, InBytes start width p → bit x p = bit y p) :
    natAt y start width = natAt x start width :=
  congrArg Codec.ofLittleEndian
    (window_eq_of_bits hx hy fun p hlow hhigh => h p ⟨hlow, hhigh⟩).symm

/-- Bytes that copy a payload from `start` on, with zero for the bits in `hole`. -/
def Masked (x : Bytes) (start : Nat) (hole : Nat → Prop) (bytes : Bytes) : Prop :=
  ∀ p < 8 * bytes.length,
    (bit bytes p = true ↔ bit x (8 * start + p) = true ∧ ¬hole (8 * start + p))

namespace Masked

variable {x bytes bytes' : Bytes} {start : Nat} {hole hole' : Nat → Prop}

theorem congr (h : Masked x start hole bytes)
    (hiff : ∀ p, InBytes start bytes.length p → (hole p ↔ hole' p)) :
    Masked x start hole' bytes := by
  intro p hp
  have hin : InBytes start bytes.length (8 * start + p) := ⟨by omega, by omega⟩
  rw [h p hp, hiff _ hin]

theorem append (h : Masked x start hole bytes)
    (h' : Masked x (start + bytes.length) hole bytes') :
    Masked x start hole (bytes ++ bytes') := by
  intro p hp
  rw [List.length_append] at hp
  rw [bit_append]
  split
  · exact h p ‹_›
  · have hplace : 8 * (start + bytes.length) + (p - 8 * bytes.length) = 8 * start + p := by omega
    have hrest := h' (p - 8 * bytes.length) (by omega)
    rwa [hplace] at hrest

theorem flatMap {α : Type} {f : α → Bytes} {size : Nat} (hlength : ∀ a, (f a).length = size)
    {items : List α}
    (h : ∀ k (hk : k < items.length), Masked x (start + k * size) hole (f items[k])) :
    Masked x start hole (items.flatMap f) := by
  induction items generalizing start with
  | nil => exact fun p hp => absurd hp (Nat.not_lt_zero p)
  | cons a items ih =>
    have hfirst : Masked x start hole (f a) := by
      simpa using h 0 (Nat.zero_lt_succ _)
    refine hfirst.append (ih fun k hk => ?_)
    have hplace : start + (k + 1) * size = start + (f a).length + k * size := by
      rw [hlength, Nat.succ_mul]
      omega
    have hcell := h (k + 1) (Nat.succ_lt_succ hk)
    rw [hplace] at hcell
    exact hcell

theorem of_zero (hzero : ∀ p, bit bytes p = false)
    (hhole : ∀ p, InBytes start bytes.length p → hole p) : Masked x start hole bytes := by
  intro p hp
  have hin : InBytes start bytes.length (8 * start + p) := ⟨by omega, by omega⟩
  simp [hzero p, hhole _ hin]

/-- A copy with nothing left out. -/
theorem of_window {width : Nat} (hx : start + width ≤ x.length)
    (hhole : ∀ p, InBytes start width p → ¬hole p) :
    Masked x start hole ((x.drop start).take width) := by
  have hlength : ((x.drop start).take width).length = width := by
    rw [List.length_take, List.length_drop]
    omega
  intro p hp
  rw [hlength] at hp
  rw [bit_window x start hp]
  simp [hhole (8 * start + p) ⟨by omega, by omega⟩]

end Masked

end Solvency
