import Solvency.Proofs.Account.Layouts
import Solvency.Proofs.Account.OrderCells

/-! The payloads of each kind of account: what has to stand where, and which bits stand for
nothing. Both are read off the layouts. -/

namespace Solvency

open Codec

/-- Data type, an accepted version, and the initialized flag. -/
def Header (dataType : DataType) (versions : List Nat) (x : Bytes) : Prop :=
  natAt x 0 1 = dataType.tag.toNat ∧ natAt x 1 1 ∈ versions ∧ natAt x 2 1 = 1

/-- The marker `serum` in front, flag bits that are set, and the marker `padding` at the end. -/
def DexFrame (tail : Nat) (flagBits : List Nat) (x : Bytes) : Prop :=
  x.take 5 = "serum".toUTF8.toList ∧ (∀ i ∈ flagBits, (natAt x 5 8).testBit i = true) ∧
    (x.drop tail).take 7 = "padding".toUTF8.toList

/-- What a payload of the right length must contain. Counts and flags are given by the bytes
they stand in. -/
def Grammar : AccountKind → Bytes → Prop
  | .group, x => Header .group [0] x ∧ natAt x 8 8 ≤ 15
  | .marginAccount, x =>
    Header .marginAccount [0, 1] x ∧ (∀ k < 15, natAt x (72 + k) 1 ≤ 1) ∧
      (∀ s < 64, natAt x (2520 + s) 1 = 255 ∨
        natAt x (2520 + s) 1 < 15 ∧ natAt x (2584 + s) 1 ≤ 1) ∧
      natAt x 4192 1 ≤ 1 ∧ natAt x 4193 1 ≤ 1 ∧ natAt x 4258 1 ≤ 1
  | .rootBank, x => Header .rootBank [0] x ∧ natAt x 56 8 ≤ 8
  | .perpMarket, x => Header .perpMarket [0] x
  | .openOrders, x =>
    DexFrame 3221 [0, 2] x ∧ natAt x 77 8 ≤ natAt x 85 8 ∧ natAt x 93 8 ≤ natAt x 101 8
  | .spotMarket, x => DexFrame 381 [0, 1] x
  | .oraclePrice, x =>
    natAt x 0 4 = 0xA1B2C3D4 ∧ natAt x 4 4 = 2 ∧ natAt x 8 4 = 3 ∧ natAt x 24 4 ≤ 32 ∧
      natAt x 224 4 ≤ 3 ∧
      ∀ k < natAt x 24 4, natAt x (240 + k * 96 + 48) 4 ≤ 3 ∧ natAt x (240 + k * 96 + 80) 4 ≤ 3

/-- The bits of a payload that carry nothing. Where they are may depend on the payload: the
cells of free order slots, and the components beyond their count. -/
def Slack : AccountKind → Bytes → Nat → Prop
  | .group, _, p => InBytes 3 5 p ∨ (∃ k < 16, InBytes (16 + k * 72 + 65) 7 p) ∨ InBytes 6024 8 p
  | .marginAccount, x, p =>
    InBytes 3 5 p ∨ (∃ s < 64, natAt x (2520 + s) 1 = 255 ∧
      (InBytes (2584 + s) 1 p ∨ InBytes (2648 + s * 16) 16 p ∨ InBytes (3672 + s * 8) 8 p)) ∨
      InBytes 4291 5 p
  | .rootBank, _, p => InBytes 3 5 p ∨ InBytes 360 64 p
  | .perpMarket, _, p => InBytes 3 5 p
  | .openOrders, x, p => ∃ s < 128, (natAt x 109 16).testBit s = true ∧
      (p = 8 * 125 + s ∨ InBytes (141 + s * 16) 16 p ∨ InBytes (2189 + s * 8) 8 p)
  | .spotMarket, _, _ => False
  | .oraclePrice, x, p => InBytes 28 4 p ∨
      ∃ k < 32, natAt x 24 4 ≤ k ∧ InBytes (240 + k * 96) 96 p

/-- A codec whose payloads are those of a kind, in these terms. -/
structure Codec.Describes {α : Type} (c : Codec α) (kind : AccountKind) : Prop where
  size_eq : c.size = kind.size
  located : ∃ A I v, c.Located A I v ∧ (∀ x, A x 0 ↔ Grammar kind x) ∧
    ∀ x p, Grammar kind x → (I x 0 p ↔ Slack kind x p)

theorem ofNat_natAt_le_iff (x : Bytes) (start : Nat) (b : UInt64) :
    UInt64.ofNat (natAt x start 8) ≤ b ↔ natAt x start 8 ≤ b.toNat := by
  rw [UInt64.le_iff_toNat_le, toNat_u64_natAt]

theorem ofNat_natAt_le_ofNat_natAt_iff (x : Bytes) (start start' : Nat) :
    UInt64.ofNat (natAt x start 8) ≤ UInt64.ofNat (natAt x start' 8) ↔
      natAt x start 8 ≤ natAt x start' 8 := by
  rw [ofNat_natAt_le_iff, toNat_u64_natAt]

theorem header_located (dataType : DataType) (versions : List UInt8) :
    ∃ v, (header dataType versions).Located
      (fun x start => natAt x start 1 = dataType.tag.toNat ∧
        natAt x (start + 1) 1 ∈ versions.map UInt8.toNat ∧ natAt x (start + 2) 1 = 1)
      (fun _ start p => InBytes (start + 3) 5 p) v := by
  have hkind : (u8.check (· == dataType.tag) (.dataType · dataType)).Located _ _ _ :=
    u8_located.check
  have hversion : (u8.check versions.contains .version).Located _ _ _ := u8_located.check
  have hflag : (bool.check id fun _ => .notInitialized).Located _ _ _ := bool_located.check
  have h := hkind.pair (hversion.pair (hflag.before (blank_located 5)))
  refine ⟨_, (h.iso ?_).congr ?_ ?_ fun _ _ => rfl⟩
  · rintro x start ⟨⟨_, hkind⟩, _, ⟨_, hflag⟩, _⟩
    have hkind := eq_of_beq hkind
    have hflag : (natAt x (start + 1 + 1) 1 == 1) = true := hflag
    simp [hkind, hflag]
  · intro x start
    have hversion : UInt8.ofNat (natAt x (start + 1) 1) ∈ versions ↔
        natAt x (start + 1) 1 ∈ versions.map UInt8.toNat := by
      simp only [List.mem_map]
      exact ⟨fun h => ⟨_, h, toNat_u8_natAt x (start + 1)⟩, fun ⟨b, hb, h⟩ =>
        ((ofNat_natAt_eq_iff x (start + 1) b).mpr h.symm) ▸ hb⟩
    simp only [beq_iff_eq, List.contains_iff_mem, ofNat_natAt_eq_iff, hversion,
      size_check, size_u8, id, true_and, and_true, Nat.add_assoc]
    exact and_congr_right fun _ => and_congr_right fun _ => and_iff_right_of_imp fun h => h.le
  · simp

@[simp] theorem size_header (dataType : DataType) (versions : List UInt8) :
    (header dataType versions).size = 8 := rfl

@[simp] theorem TokenInfo.size_codec : TokenInfo.codec.size = 72 := rfl

theorem TokenInfo.codec_located : ∃ v, TokenInfo.codec.Located (fun _ _ => True)
    (fun _ start p => InBytes (start + 65) 7 p) v :=
  ⟨_, ((address_located.pair (address_located.pair (u8_located.before (blank_located 7)))).iso
    fun _ _ _ => rfl).congr (by simp) (by simp) fun _ _ => rfl⟩

@[simp] theorem SpotMarketInfo.size_codec : SpotMarketInfo.codec.size = 112 := rfl

theorem SpotMarketInfo.codec_located : ∃ v, SpotMarketInfo.codec.Located (fun _ _ => True)
    (fun _ _ _ => False) v :=
  ⟨_, ((address_located.pair (fixed_located.pair (fixed_located.pair (fixed_located.pair
    (fixed_located.pair fixed_located))))).iso
    fun _ _ _ => rfl).congr (by simp) (by simp) fun _ _ => rfl⟩

@[simp] theorem PerpMarketInfo.size_codec : PerpMarketInfo.codec.size = 160 := rfl

theorem PerpMarketInfo.codec_located : ∃ v, PerpMarketInfo.codec.Located (fun _ _ => True)
    (fun _ _ _ => False) v :=
  ⟨_, ((address_located.pair (fixed_located.pair (fixed_located.pair (fixed_located.pair
    (fixed_located.pair (fixed_located.pair (fixed_located.pair (fixed_located.pair
    (i64_located.pair i64_located))))))))).iso
    fun _ _ _ => rfl).congr (by simp) (by simp) fun _ _ => rfl⟩

theorem Group.describes : Group.codec.Describes .group where
  size_eq := rfl
  located := by
    obtain ⟨_, hheader⟩ := header_located .group [0]
    obtain ⟨_, htoken⟩ := TokenInfo.codec_located
    obtain ⟨_, hspot⟩ := SpotMarketInfo.codec_located
    obtain ⟨_, hperp⟩ := PerpMarketInfo.codec_located
    refine ⟨_, _, _, (hheader.pair (u64_located.check.pair ((htoken.array 16).pair
      ((hspot.array 15).pair ((hperp.array 15).pair ((address_located.array 15).pair
      (u64_located.pair (address_located.pair (address_located.pair (address_located.pair
      (address_located.pair (u64_located.pair (address_located.pair (address_located.pair
      (address_located.pair (address_located.pair (u32_located.pair (u32_located.pair
      (u32_located.pair (u32_located.pair (u64_located.before
      (blank_located 8)))))))))))))))))))))).iso fun _ _ _ => rfl, fun x => ?_, fun x p hx => ?_⟩
    · simp [Grammar, Header, ofNat_natAt_le_iff]
    · simp [Slack]

@[simp] theorem PerpAccount.size_codec : PerpAccount.codec.size = 96 := rfl

theorem PerpAccount.codec_located : ∃ v, PerpAccount.codec.Located (fun _ _ => True)
    (fun _ _ _ => False) v :=
  ⟨_, ((i64_located.pair (fixed_located.pair (fixed_located.pair (fixed_located.pair
    (i64_located.pair (i64_located.pair (i64_located.pair (i64_located.pair
    u64_located)))))))).iso
    fun _ _ _ => rfl).congr (by simp) (by simp) fun _ _ => rfl⟩

@[simp] theorem PerpOrder.size_codec : PerpOrder.codec.size = 1664 := rfl

theorem MarginAccount.describes : MarginAccount.codec.Describes .marginAccount where
  size_eq := rfl
  located := by
    obtain ⟨_, hheader⟩ := header_located .marginAccount [0, 1]
    obtain ⟨_, hperp⟩ := PerpAccount.codec_located
    refine ⟨_, _, _, (hheader.pair (address_located.pair (address_located.pair
      ((bool_located.array 15).pair (u8_located.pair ((fixed_located.array 16).pair
      ((fixed_located.array 16).pair ((address_located.array 15).pair ((hperp.array 15).pair
      (PerpOrder.codec_located.pair (u64_located.pair (bool_located.pair (bool_located.pair
      ((u8_located.array 32).pair (address_located.pair (bool_located.pair
      (address_located.before (blank_located 5)))))))))))))))))).iso
      fun _ _ _ => rfl, fun x => ?_, fun x p hx => ?_⟩
    · simp [Grammar, Header, PerpOrder.CellAccepts]
    · simp [Slack, PerpOrder.FreeCell, PerpOrder.InCell]

theorem RootBank.describes : RootBank.codec.Describes .rootBank where
  size_eq := rfl
  located := by
    obtain ⟨_, hheader⟩ := header_located .rootBank [0]
    refine ⟨_, _, _, (hheader.pair (fixed_located.pair (fixed_located.pair (fixed_located.pair
      (u64_located.check.pair ((address_located.array 8).pair (fixed_located.pair
      (fixed_located.pair (u64_located.before (blank_located 64)))))))))).iso
      fun _ _ _ => rfl, fun x => ?_, fun x p hx => ?_⟩
    · simp [Grammar, Header, ofNat_natAt_le_iff]
    · simp [Slack]

theorem LiquidityMiningInfo.codec_located : ∃ v, LiquidityMiningInfo.codec.Located
    (fun _ _ => True) (fun _ _ _ => False) v :=
  ⟨_, ((fixed_located.pair (fixed_located.pair (u64_located.pair (u64_located.pair
    (u64_located.pair u64_located))))).iso
    fun _ _ _ => rfl).congr (by simp) (by simp) fun _ _ => rfl⟩

theorem PerpMarket.describes : PerpMarket.codec.Describes .perpMarket where
  size_eq := rfl
  located := by
    obtain ⟨_, hheader⟩ := header_located .perpMarket [0]
    obtain ⟨_, hmining⟩ := LiquidityMiningInfo.codec_located
    refine ⟨_, _, _, (hheader.pair (address_located.pair (address_located.pair
      (address_located.pair (address_located.pair (i64_located.pair (i64_located.pair
      (fixed_located.pair (fixed_located.pair (i64_located.pair (u64_located.pair
      (u64_located.pair (fixed_located.pair (hmining.pair address_located)))))))))))))).iso
      fun _ _ _ => rfl, fun x => ?_, fun x p hx => ?_⟩
    · simp [Grammar, Header]
    · simp [Slack]

theorem and_eq_right_iff (n mask : Nat) :
    n &&& mask = mask ↔ ∀ i, mask.testBit i = true → n.testBit i = true := by
  constructor
  · intro h i hi
    have hand : (n &&& mask).testBit i = true := by rw [h, hi]
    rw [Nat.testBit_and, hi, Bool.and_true] at hand
    exact hand
  · intro h
    refine Nat.eq_of_testBit_eq fun i => ?_
    rw [Nat.testBit_and]
    cases hi : mask.testBit i with
    | false => simp
    | true => simp [h i hi]

namespace Dex

@[simp] theorem size_head : head.size = 5 := by decide +kernel

@[simp] theorem size_tail : tail.size = 7 := by decide +kernel

@[simp] theorem size_flags (required : UInt64) : (flags required).size = 13 := by
  rw [flags, size_check, size_after, size_head, size_iso, size_u64]

theorem head_located : head.Located (fun x start => (x.drop start).take 5 = "serum".toUTF8.toList)
    (fun _ _ _ => False) (fun _ _ => ()) :=
  (marker_located _ _).congr (fun x start => by rw [show List.length _ = 5 from size_head])
    (fun _ _ _ => Iff.rfl) fun _ _ => rfl

theorem tail_located :
    tail.Located (fun x start => (x.drop start).take 7 = "padding".toUTF8.toList)
      (fun _ _ _ => False) (fun _ _ => ()) :=
  (marker_located _ _).congr (fun x start => by rw [show List.length _ = 7 from size_tail])
    (fun _ _ _ => Iff.rfl) fun _ _ => rfl

theorem flags_located (required : UInt64) : ∃ v, (flags required).Located
    (fun x start => (x.drop start).take 5 = "serum".toUTF8.toList ∧
      ∀ i, required.toNat.testBit i = true → (natAt x (start + 5) 8).testBit i = true)
    (fun _ _ _ => False) v := by
  have hword : (u64.iso AccountFlags.mk AccountFlags.bits).Located (fun _ _ => True)
      (fun _ _ _ => False) (fun x start => ⟨UInt64.ofNat (natAt x start 8)⟩) :=
    u64_located.iso fun _ _ _ => rfl
  refine ⟨_, (hword.after head_located).check.congr ?_ (by simp) fun _ _ => rfl⟩
  intro x start
  have hcontains : (AccountFlags.mk (UInt64.ofNat (natAt x (start + 5) 8))).contains required =
      true ↔ ∀ i, required.toNat.testBit i = true → (natAt x (start + 5) 8).testBit i = true := by
    rw [AccountFlags.contains, beq_iff_eq, ← and_eq_right_iff, ← UInt64.toNat_inj,
      UInt64.toNat_and, toNat_u64_natAt]
  simp [hcontains]

theorem testBit_marketFlags (i : Nat) :
    (AccountFlags.initialized ||| AccountFlags.market).toNat.testBit i = true ↔ i ∈ [0, 1] := by
  rw [show (AccountFlags.initialized ||| AccountFlags.market).toNat = 3 from rfl]
  rcases i with _ | _ | i <;> simp [Nat.testBit_succ]

theorem testBit_openOrdersFlags (i : Nat) :
    (AccountFlags.initialized ||| AccountFlags.openOrders).toNat.testBit i = true ↔
      i ∈ [0, 2] := by
  rw [show (AccountFlags.initialized ||| AccountFlags.openOrders).toNat = 5 from rfl]
  rcases i with _ | _ | _ | i <;> simp [Nat.testBit_succ]

end Dex

theorem SpotMarket.describes : SpotMarket.codec.Describes .spotMarket where
  size_eq := by simp [SpotMarket.codec, AccountKind.size]
  located := by
    obtain ⟨_, hflags⟩ := Dex.flags_located (AccountFlags.initialized ||| AccountFlags.market)
    refine ⟨_, _, _, (hflags.pair (address_located.pair (u64_located.pair (address_located.pair
      (address_located.pair (address_located.pair (u64_located.pair (u64_located.pair
      (address_located.pair (u64_located.pair (u64_located.pair (u64_located.pair
      (address_located.pair (address_located.pair (address_located.pair (address_located.pair
      (u64_located.pair (u64_located.pair (u64_located.pair (u64_located.before
      Dex.tail_located)))))))))))))))))))).iso
      fun _ _ _ => rfl, fun x => ?_, fun x p hx => ?_⟩
    · simp only [Dex.testBit_marketFlags]
      simp [Grammar, DexFrame, and_assoc]
    · simp [Slack]

@[simp] theorem SpotOrder.size_codec : SpotOrder.codec.size = 3104 := rfl

theorem OpenOrders.describes : OpenOrders.codec.Describes .openOrders where
  size_eq := by simp [OpenOrders.codec, AccountKind.size]
  located := by
    obtain ⟨_, hflags⟩ := Dex.flags_located (AccountFlags.initialized ||| AccountFlags.openOrders)
    have hbalances := u64_located.pair (u64_located.pair (u64_located.pair u64_located))
    refine ⟨_, _, _, (hflags.pair (address_located.pair (address_located.pair
      (hbalances.check.pair (SpotOrder.codec_located.pair
      (u64_located.before Dex.tail_located)))))).iso
      fun _ _ _ => rfl, fun x => ?_, fun x p hx => ?_⟩
    · simp only [Dex.testBit_openOrdersFlags]
      simp [Grammar, DexFrame, ofNat_natAt_le_ofNat_natAt_iff]
      tauto
    · simp [Slack, SpotOrder.FreeCell, SpotOrder.Free, SpotOrder.InCell]

theorem PriceStatus.ofCode?_of_le {code : UInt32} (h : code.toNat ≤ 3) :
    ∃ status, PriceStatus.ofCode? code = some status ∧ status.code = code := by
  have hcode : code = 0 ∨ code = 1 ∨ code = 2 ∨ code = 3 := by
    simp only [← UInt32.toNat_inj, UInt32.toNat_ofNat]
    omega
  rcases hcode with rfl | rfl | rfl | rfl
  · exact ⟨.unknown, rfl, rfl⟩
  · exact ⟨.trading, rfl, rfl⟩
  · exact ⟨.halted, rfl, rfl⟩
  · exact ⟨.auction, rfl, rfl⟩

theorem PriceStatus.ofCode?_eq_none {code : UInt32} (h : ¬code.toNat ≤ 3) :
    PriceStatus.ofCode? code = none := by
  unfold PriceStatus.ofCode?
  split <;> first | rfl | exact absurd (by decide) h

theorem PriceStatus.codec_located : ∃ v, PriceStatus.codec.Located
    (fun x start => natAt x start 4 ≤ 3) (fun _ _ _ => False) v := by
  have h : PriceStatus.codec.Located _ _ _ :=
    u32_located.refine (P := (·.toNat ≤ 3)) (f := fun code => (ofCode? code).getD .unknown) ?_ ?_ ?_
  · refine ⟨_, h.congr (fun x start => ?_) (fun _ _ _ => Iff.rfl) fun _ _ => rfl⟩
    rw [true_and, toNat_u32_natAt]
  · intro code hle _
    obtain ⟨status, hstatus, _⟩ := ofCode?_of_le hle
    simp [hstatus]
  · intro code hgt _
    exact ⟨.priceStatus code, by rw [ofCode?_eq_none hgt]⟩
  · intro code hle
    obtain ⟨status, hstatus, hcode⟩ := ofCode?_of_le hle
    simp [hstatus, hcode]

@[simp] theorem PriceStatus.size_codec : PriceStatus.codec.size = 4 := rfl

theorem PriceInfo.codec_located : ∃ v, PriceInfo.codec.Located
    (fun x start => natAt x (start + 16) 4 ≤ 3) (fun _ _ _ => False) v := by
  obtain ⟨_, hstatus⟩ := PriceStatus.codec_located
  exact ⟨_, ((i64_located.pair (u64_located.pair (hstatus.pair
    (u32_located.pair u64_located)))).iso fun _ _ _ => rfl).congr (by simp) (by simp)
    fun _ _ => rfl⟩

@[simp] theorem PriceInfo.size_codec : PriceInfo.codec.size = 32 := rfl

namespace PriceComponent

@[simp] theorem size_codec : PriceComponent.codec.size = 96 := rfl

theorem codec_located : ∃ v, PriceComponent.codec.Located
    (fun x start => natAt x (start + 48) 4 ≤ 3 ∧ natAt x (start + 80) 4 ≤ 3)
    (fun _ _ _ => False) v := by
  obtain ⟨_, hinfo⟩ := PriceInfo.codec_located
  exact ⟨_, ((address_located.pair (hinfo.pair hinfo)).iso fun _ _ _ => rfl).congr
    (by simp) (by simp) fun _ _ => rfl⟩

end PriceComponent

namespace OraclePrice

@[simp] theorem size_preamble : preamble.size = 24 := rfl

theorem preamble_located : ∃ v, preamble.Located
    (fun x start => natAt x start 4 = 0xA1B2C3D4 ∧ natAt x (start + 4) 4 = 2 ∧
      natAt x (start + 8) 4 = 3) (fun _ _ _ => False) v := by
  have hword (word : UInt32) (fault : UInt32 → Fault) : (u32.check (· == word) fault).Located
      (fun x start => natAt x start 4 = word.toNat) (fun _ _ _ => False)
      (fun x start => UInt32.ofNat (natAt x start 4)) := by
    refine u32_located.check.congr (fun x start => ?_) (fun _ _ _ => Iff.rfl) fun _ _ => rfl
    rw [true_and, beq_iff_eq, ← UInt32.toNat_inj, toNat_u32_natAt]
  refine ⟨_, (((hword magic .priceMagic).pair ((hword layoutVersion .priceVersion).pair
    ((hword accountType .priceAccountType).pair (u32_located.pair (u32_located.pair
    i32_located))))).iso ?_).congr ?_ (by simp) fun _ _ => rfl⟩
  · rintro x start ⟨hmagic, hversion, htype, _⟩
    have hback {word : UInt32} {o : Nat} (h : natAt x o 4 = word.toNat) :
        word = UInt32.ofNat (natAt x o 4) := by
      rw [h, UInt32.ofNat_toNat]
    exact Prod.ext (hback hmagic) (Prod.ext (hback hversion) (Prod.ext (hback htype) rfl))
  · intro x start
    simp [magic, layoutVersion, accountType]

@[simp] theorem size_componentCount : componentCount.size = 8 := rfl

theorem componentCount_located : componentCount.Located (fun x start => natAt x start 4 ≤ 32)
    (fun _ start p => InBytes (start + 4) 4 p) (fun x start => UInt32.ofNat (natAt x start 4)) :=
  (u32_located.check.before (blank_located 4)).congr
    (fun x start => by simp only [toNat_u32_natAt, decide_eq_true_eq, true_and, and_true])
    (by simp) fun _ _ => rfl

@[simp] theorem size_body : body.size = 208 := rfl

theorem body_located : ∃ v, body.Located (fun x start => natAt x (start + 192) 4 ≤ 3)
    (fun _ _ _ => False) v := by
  obtain ⟨_, hinfo⟩ := PriceInfo.codec_located
  exact ⟨_, (u64_located.pair (u64_located.pair ((i64_located.array 8).pair
    (address_located.pair (address_located.pair (address_located.pair hinfo)))))).congr
    (by simp) (by simp) fun _ _ => rfl⟩

/-- The components that are counted, and the slots beyond them. -/
theorem components_located : ∃ v : Nat → Bytes → Nat → List PriceComponent,
    (∀ n x start, (v n x start).length = n) ∧ ∀ n ≤ 32,
      (Codec.mk (32 * 96) (PriceComponent.readSlots n) PriceComponent.writeSlots).Located
        (fun x start => ∀ k < n, natAt x (start + k * 96 + 48) 4 ≤ 3 ∧
          natAt x (start + k * 96 + 80) 4 ≤ 3)
        (fun _ start p => InBytes (start + n * 96) ((32 - n) * 96) p) (v n) := by
  obtain ⟨v, hcomponent⟩ := PriceComponent.codec_located
  refine ⟨fun n x start => (Vector.ofFn fun k : Fin n => v x (start + k * 96)).toList,
    fun n x start => Vector.length_toList, fun n hn => ?_⟩
  have hcells := (hcomponent.array n).before (blank_located ((32 - n) * 96))
  have hslots : (Codec.mk (32 * 96) (PriceComponent.readSlots n) PriceComponent.writeSlots).Located
      _ _ _ := hcells.reshape (f := Vector.toList) ?_ PriceComponent.length_writeSlots ?_ ?_
  · exact hslots.congr (by simp) (by simp) fun _ _ => rfl
  · simp only [size_before, size_array, size_blank, PriceComponent.size_codec]
    omega
  · simp [PriceComponent.readSlots, Codec.before, Codec.array, componentSlots]
  · intro x start _
    simp [PriceComponent.writeSlots, Codec.before, Codec.array, blank, componentSlots,
      List.take_of_length_le, hn]

/-- The slots from the count on, as one stretch and slot by slot. -/
theorem beyond_iff {n p : Nat} (hn : n ≤ 32) (start : Nat) :
    InBytes (start + n * 96) ((32 - n) * 96) p ↔
      ∃ k < 32, n ≤ k ∧ InBytes (start + k * 96) 96 p := by
  simp only [InBytes]
  constructor
  · intro h
    exact ⟨(p / 8 - start) / 96, by omega, by omega, by omega, by omega⟩
  · rintro ⟨k, hk, hle, h⟩
    omega

theorem describes : OraclePrice.codec.Describes .oraclePrice where
  size_eq := rfl
  located := by
    obtain ⟨_, hpreamble⟩ := preamble_located
    obtain ⟨fields, hbody⟩ := body_located
    obtain ⟨components, hlength, hslots⟩ := components_located
    refine ⟨_, _, _, (hpreamble.pair (componentCount_located.counted
      (B := fun num x start => natAt x (start + 192) 4 ≤ 3 ∧ ∀ k < num.toNat,
        natAt x (start + 208 + k * 96 + 48) 4 ≤ 3 ∧ natAt x (start + 208 + k * 96 + 80) 4 ≤ 3)
      (J := fun num _ start p => False ∨
        InBytes (start + 208 + num.toNat * 96) ((32 - num.toNat) * 96) p)
      (w := fun num x start => (fields x start, components num.toNat x (start + 208)))
      ?_ ?_ ?_)).iso fun _ _ _ => rfl, fun x => ?_, fun x p hx => ?_⟩
    · intro x start hcount
      exact hbody.pair (hslots _ (by rwa [toNat_u32_natAt]))
    · intro x start hcount y o
      have hle : min (UInt32.ofNat (natAt x start 4)).toNat componentSlots =
          (UInt32.ofNat (natAt x start 4)).toNat :=
        Nat.min_eq_left (by rwa [toNat_u32_natAt])
      simp only [hlength, hle, UInt32.ofNat_toNat]
    · rintro ⟨fields, components⟩
      simp [hbody.length_write, PriceComponent.length_writeSlots]
    · have hcount := toNat_u32_natAt x 24
      simp only [hcount, Grammar, size_preamble, size_componentCount, Nat.zero_add, and_assoc]
    · have hcount := toNat_u32_natAt x 24
      have hle : natAt x 24 4 ≤ 32 := hx.2.2.2.1
      have hbeyond := beyond_iff (p := p) hle 240
      simp [Slack, hcount, hle, ← hbeyond]

end OraclePrice

end Solvency
