import Solvency.Proofs.Account.Slots
import Solvency.Proofs.Bytes.Located

/-! Order lists in their payloads. Each slot is a few cells, one in every array; in a free
slot only the cell that says so counts. -/

namespace Solvency

open Codec

theorem find_filterMap_finRange {α : Type} {n : Nat} {k : α → Nat} {pick : Fin n → Option α}
    (h : ∀ i x, pick i = some x → k x = i) (i : Fin n) :
    ((List.finRange n).filterMap pick).reverse.find? (fun x => k x == i) = pick i := by
  have hasc := ascending_filterMap_finRange h
  refine Option.ext fun x => ?_
  rw [find_reverse_eq_some hasc, List.mem_filterMap]
  constructor
  · rintro ⟨⟨j, _, hj⟩, hi⟩
    obtain rfl : j = i := Fin.ext ((h j x hj).symm.trans hi)
    exact hj
  · exact fun hx => ⟨⟨i, List.mem_finRange i, hx⟩, h i x hx⟩

theorem ofNat_natAt_eq_iff (x : Bytes) (start : Nat) (b : UInt8) :
    UInt8.ofNat (natAt x start 1) = b ↔ natAt x start 1 = b.toNat := by
  rw [← UInt8.toNat_inj, toNat_u8_natAt]

theorem Side.ofCode?_eq (code : UInt8) :
    Side.ofCode? code = if code = 0 then some .bid else if code = 1 then some .ask else none := by
  unfold Side.ofCode?
  split <;> simp_all

theorem Side.ofCode?_ofNat_natAt (x : Bytes) (start : Nat) :
    Side.ofCode? (UInt8.ofNat (natAt x start 1)) =
      if natAt x start 1 = 0 then some .bid
      else if natAt x start 1 = 1 then some .ask else none := by
  simp only [Side.ofCode?_eq, ofNat_natAt_eq_iff]
  rfl

namespace PerpOrder

/-- The cells of slot `s` beside the one for its market. -/
def InCell (start s p : Nat) : Prop :=
  InBytes (start + 64 + s) 1 p ∨ InBytes (start + 128 + s * 16) 16 p ∨
    InBytes (start + 1152 + s * 8) 8 p

def CellAccepts (x : Bytes) (start s : Nat) : Prop :=
  natAt x (start + s) 1 = 255 ∨
    natAt x (start + s) 1 < 15 ∧ natAt x (start + 64 + s) 1 ≤ 1

def cell (x : Bytes) (start s : Nat) : PerpOrder where
  slot := UInt8.ofNat s
  marketIndex := UInt8.ofNat (natAt x (start + s) 1)
  side := if natAt x (start + 64 + s) 1 = 0 then .bid else .ask
  orderId := ⟨BitVec.ofNat 128 (natAt x (start + 128 + s * 16) 16)⟩
  clientOrderId := UInt64.ofNat (natAt x (start + 1152 + s * 8) 8)

def cell? (x : Bytes) (start s : Nat) : Option PerpOrder :=
  if natAt x (start + s) 1 = 255 then none else some (cell x start s)

def cells (x : Bytes) (start : Nat) : Columns :=
  (Vector.ofFn fun s => UInt8.ofNat (natAt x (start + s) 1),
    Vector.ofFn fun s => UInt8.ofNat (natAt x (start + 64 + s) 1),
    Vector.ofFn fun s => ⟨BitVec.ofNat 128 (natAt x (start + 128 + s * 16) 16)⟩,
    Vector.ofFn fun s => UInt64.ofNat (natAt x (start + 1152 + s * 8) 8))

def columnsCodec : Codec Columns :=
  (array perpOrderSlots u8).pair <| (array perpOrderSlots u8).pair <|
    (array perpOrderSlots i128).pair (array perpOrderSlots u64)

theorem columns_located :
    columnsCodec.Located (fun _ _ => True) (fun _ _ _ => False) cells := by
  have h := (u8_located.array perpOrderSlots).pair ((u8_located.array perpOrderSlots).pair
    ((i128_located.array perpOrderSlots).pair (u64_located.array perpOrderSlots)))
  refine h.congr (by simp) (by simp) fun x start => ?_
  simp [cells, perpOrderSlots]

theorem slot_of_cell? {x : Bytes} {start : Nat} {s : Fin perpOrderSlots} {order : PerpOrder}
    (h : cell? x start s = some order) : order.slot.toNat = s := by
  rw [cell?] at h
  split at h
  · cases h
  · cases h
    have hslot : s.val < 64 := s.isLt
    simp only [cell, UInt8.toNat_ofNat']
    omega

theorem ofColumns_cells {x : Bytes} {start : Nat} {s : Fin perpOrderSlots}
    (h : CellAccepts x start s) (sidesStart : Nat) :
    ofColumns sidesStart (cells x start) s = .ok (cell? x start s) := by
  by_cases hfree : natAt x (start + s) 1 = 255
  · simp [ofColumns, cells, cell?, hfree, freeOrderSlot]
  · obtain ⟨hmarket, hside⟩ := h.resolve_left hfree
    have hbyte : UInt8.ofNat (natAt x (start + s) 1) ≠ freeOrderSlot :=
      mt (ofNat_natAt_eq_iff x _ _).mp hfree
    have hmod : natAt x (start + s) 1 % 256 = natAt x (start + s) 1 :=
      Nat.mod_eq_of_lt (natAt_lt x (start + s) 1)
    have hcode : Side.ofCode? (UInt8.ofNat (natAt x (start + 64 + s) 1)) =
        some (if natAt x (start + 64 + s) 1 = 0 then .bid else .ask) := by
      rw [Side.ofCode?_ofNat_natAt]
      split
      · rfl
      · rw [if_pos (by omega)]
    simp [ofColumns, cells, cell?, cell, hfree, hbyte, hmod, hmarket, hcode]

theorem ofColumns_cells_error {x : Bytes} {start : Nat} {s : Fin perpOrderSlots}
    (h : ¬CellAccepts x start s) (sidesStart : Nat) :
    ∃ fault, ofColumns sidesStart (cells x start) s = .error fault := by
  obtain ⟨hfree, hrest⟩ := not_or.mp h
  have hbyte : UInt8.ofNat (natAt x (start + s) 1) ≠ freeOrderSlot :=
    mt (ofNat_natAt_eq_iff x _ _).mp hfree
  have hmod : natAt x (start + s) 1 % 256 = natAt x (start + s) 1 :=
    Nat.mod_eq_of_lt (natAt_lt x (start + s) 1)
  by_cases hmarket : marketSlots ≤ natAt x (start + s) 1
  · simp [ofColumns, cells, hbyte, hmod, hmarket]
  · have hside : ¬natAt x (start + 64 + s) 1 ≤ 1 := fun hle =>
      hrest ⟨Nat.lt_of_not_le hmarket, hle⟩
    have hcode : Side.ofCode? (UInt8.ofNat (natAt x (start + 64 + s) 1)) = none := by
      rw [Side.ofCode?_ofNat_natAt, if_neg (by omega), if_neg (by omega)]
    simp [ofColumns, cells, hbyte, hmod, hmarket, hcode]

/-- The orders of a payload's arrays, by ascending slot. -/
def listed (x : Bytes) (start : Nat) : List PerpOrder :=
  (List.finRange perpOrderSlots).filterMap fun s : Fin perpOrderSlots => cell? x start s

theorem at?_listed (x : Bytes) (start : Nat) (s : Fin perpOrderSlots) :
    at? (listed x start) s = cell? x start s :=
  find_filterMap_finRange (k := fun order : PerpOrder => order.slot.toNat)
    (fun _ _ => slot_of_cell?) s

/-- Collecting the occupied slots, as the codec does after reading the four arrays. -/
def collect (start : Nat) (columns : Columns) : Except Fault (List PerpOrder) :=
  return (← (List.finRange perpOrderSlots).mapM (ofColumns (start + perpOrderSlots) columns))
    |>.reduceOption

theorem collect_cells {x : Bytes} {start : Nat} (h : ∀ s < perpOrderSlots, CellAccepts x start s)
    (offset : Nat) : collect offset (cells x start) = .ok (listed x start) := by
  have hcell (s : Fin perpOrderSlots) := ofColumns_cells (h s s.isLt) (offset + perpOrderSlots)
  exact mapM_reduceOption fun s _ => hcell s

theorem collect_cells_error {x : Bytes} {start : Nat}
    (h : ¬∀ s < perpOrderSlots, CellAccepts x start s) (offset : Nat) :
    ∃ fault, collect offset (cells x start) = .error fault := by
  cases hm : (List.finRange perpOrderSlots).mapM
      (ofColumns (offset + perpOrderSlots) (cells x start)) with
  | error fault => exact ⟨fault, by rw [collect, hm]; rfl⟩
  | ok results =>
    refine absurd (fun s hs => ?_) h
    by_contra hcell
    obtain ⟨fault, hfault⟩ :=
      ofColumns_cells_error (s := ⟨s, hs⟩) hcell (offset + perpOrderSlots)
    obtain ⟨found, _, hfound⟩ := exists_ok_of_mapM hm (List.mem_finRange ⟨s, hs⟩)
    rw [hfault] at hfound
    cases hfound

theorem columns_listed (x : Bytes) (start : Nat) : columns (listed x start) =
    (Vector.ofFn fun s => (cell? x start s).elim freeOrderSlot PerpOrder.marketIndex,
      Vector.ofFn fun s => (cell? x start s).elim 0 (·.side.code),
      Vector.ofFn fun s => (cell? x start s).elim default PerpOrder.orderId,
      Vector.ofFn fun s => (cell? x start s).elim 0 PerpOrder.clientOrderId) := by
  have hslots : (Vector.ofFn fun s : Fin perpOrderSlots => at? (listed x start) s) =
      Vector.ofFn fun s : Fin perpOrderSlots => cell? x start s :=
    congrArg Vector.ofFn (funext fun s => at?_listed x start s)
  simp only [columns, hslots]
  refine Prod.ext ?_ (Prod.ext ?_ (Prod.ext ?_ ?_)) <;> exact Vector.map_ofFn

theorem inCell_within {start s p : Nat} (hs : s < 64) (h : InCell start s p) :
    InBytes (start + 64) 1600 p := by
  simp only [InCell, InBytes] at *
  omega

theorem inCell_unique {start s k p : Nat} (hs : s < 64) (hk : k < 64)
    (h : InCell start s p) (h' : InCell start k p) : s = k := by
  simp only [InCell, InBytes] at *
  omega

/-- The bits of free slots, but for the market byte that says a slot is free. -/
def FreeCell (x : Bytes) (start p : Nat) : Prop :=
  ∃ s < 64, natAt x (start + s) 1 = 255 ∧ InCell start s p

theorem not_freeCell {x : Bytes} {start k p : Nat} (hk : k < 64)
    (hfree : natAt x (start + k) 1 ≠ 255) (hp : InCell start k p) : ¬FreeCell x start p :=
  Located.not_free_of_taken (p := p) (fun _ _ _ => inCell_unique) hk hfree hp

theorem masked_market {x : Bytes} {start k : Nat} (hx : start + 1664 ≤ x.length) (hk : k < 64) :
    Masked x (start + k) (FreeCell x start)
      (u8.write ((cell? x start k).elim freeOrderSlot PerpOrder.marketIndex)) := by
  have hbyte : (cell? x start k).elim freeOrderSlot PerpOrder.marketIndex =
      UInt8.ofNat (natAt x (start + k) 1) := by
    rw [cell?]
    split
    · rename_i hfree
      rw [hfree]
      rfl
    · rfl
  rw [hbyte]
  refine u8_located.kept (by simp only [size_u8]; omega) trivial fun p hp => ?_
  rintro ⟨s, hs, _, hcell⟩
  have := inCell_within hs hcell
  simp only [InBytes, size_u8] at *
  omega

theorem cell?_elim {β : Type} (x : Bytes) (start s : Nat) (b : β) (f : PerpOrder → β) :
    (cell? x start s).elim b f = if natAt x (start + s) 1 = 255 then b else f (cell x start s) := by
  rw [cell?]
  split <;> rfl

theorem masked_side {x : Bytes} {start k : Nat} (hx : start + 1664 ≤ x.length) (hk : k < 64)
    (ha : CellAccepts x start k) :
    Masked x (start + 64 + k) (FreeCell x start)
      (u8.write ((cell? x start k).elim 0 (·.side.code))) := by
  have hcode : (cell? x start k).elim 0 (·.side.code) =
      if natAt x (start + k) 1 = 255 then 0 else UInt8.ofNat (natAt x (start + 64 + k) 1) := by
    rw [cell?_elim]
    split
    · rfl
    · have hside := (ha.resolve_left ‹_›).2
      rcases Nat.le_one_iff_eq_zero_or_eq_one.mp hside with h | h <;> rw [cell, h] <;> rfl
  rw [hcode]
  exact u8_located.masked_cell (fun _ _ _ => inCell_unique)
    (by simp only [size_u8]; omega) trivial (bit_replicate_zero 1) hk fun _ => .inl

theorem masked_orderId {x : Bytes} {start k : Nat} (hx : start + 1664 ≤ x.length) (hk : k < 64) :
    Masked x (start + 128 + k * 16) (FreeCell x start)
      (i128.write ((cell? x start k).elim default PerpOrder.orderId)) := by
  rw [cell?_elim]
  exact i128_located.masked_cell (fun _ _ _ => inCell_unique)
    (by simp only [size_i128]; omega) trivial (bit_replicate_zero 16) hk fun _ => .inr ∘ .inl

theorem masked_clientId {x : Bytes} {start k : Nat} (hx : start + 1664 ≤ x.length) (hk : k < 64) :
    Masked x (start + 1152 + k * 8) (FreeCell x start)
      (u64.write ((cell? x start k).elim 0 PerpOrder.clientOrderId)) := by
  rw [cell?_elim]
  exact u64_located.masked_cell (fun _ _ _ => inCell_unique)
    (by simp only [size_u64]; omega) trivial (bit_replicate_zero 8) hk fun _ => .inr ∘ .inr

theorem masked_columns {x : Bytes} {start : Nat} (hx : start + 1664 ≤ x.length)
    (ha : ∀ s < 64, CellAccepts x start s) :
    Masked x start (FreeCell x start) (columnsCodec.write (columns (listed x start))) := by
  rw [columns_listed]
  refine (u8_located.array 64).masked_pair (u8_located.masked_array fun k => ?_)
    ((u8_located.array 64).masked_pair (u8_located.masked_array fun k => ?_)
      ((i128_located.array 64).masked_pair (i128_located.masked_array fun k => ?_)
        (u64_located.masked_array fun k => ?_)))
  · simpa only [size_u8, Nat.mul_one] using masked_market hx k.isLt
  · simpa only [size_u8, size_array, Nat.mul_one] using masked_side hx k.isLt (ha k k.isLt)
  · exact masked_orderId hx k.isLt
  · exact masked_clientId hx k.isLt

theorem listed_stable {x y : Bytes} {start : Nat} (hx : start + 1664 ≤ x.length)
    (hy : start + 1664 ≤ y.length)
    (h : ∀ p, InBytes start 1664 p → ¬FreeCell x start p → bit x p = bit y p) :
    (∀ s < 64, CellAccepts y start s ↔ CellAccepts x start s) ∧ listed y start = listed x start ∧
      ∀ p, FreeCell y start p ↔ FreeCell x start p := by
  have hmarket (s : Nat) (hs : s < 64) : natAt y (start + s) 1 = natAt x (start + s) 1 := by
    refine natAt_eq_of_bits (by omega) (by omega) fun p hp => h p ?_ ?_
    · simp only [InBytes] at *
      omega
    · rintro ⟨k, hk, _, hcell⟩
      have := inCell_within hk hcell
      simp only [InBytes] at *
      omega
  have hother {s a n : Nat} (hs : s < 64) (hfree : natAt x (start + s) 1 ≠ 255)
      (hcell : ∀ p, InBytes a n p → InCell start s p) (hle : a + n ≤ start + 1664) :
      natAt y a n = natAt x a n := by
    refine natAt_eq_of_bits (by omega) (by omega) fun p hp => h p ?_ ?_
    · have := inCell_within hs (hcell p hp)
      simp only [InBytes] at *
      omega
    · exact not_freeCell hs hfree (hcell p hp)
  have hside {s : Nat} (hs : s < 64) (hfree : natAt x (start + s) 1 ≠ 255) :
      natAt y (start + 64 + s) 1 = natAt x (start + 64 + s) 1 :=
    hother hs hfree (fun _ => .inl) (by omega)
  have hcell (s : Nat) (hs : s < 64) : cell? y start s = cell? x start s := by
    by_cases hfree : natAt x (start + s) 1 = 255
    · rw [cell?, cell?, hmarket s hs, if_pos hfree, if_pos hfree]
    · rw [cell?, cell?, cell, cell, hmarket s hs, hside hs hfree,
        hother hs hfree (fun _ => .inr ∘ .inl) (by omega),
        hother hs hfree (fun _ => .inr ∘ .inr) (by omega)]
  refine ⟨fun s hs => ?_, ?_, fun p => ?_⟩
  · by_cases hfree : natAt x (start + s) 1 = 255
    · simp [CellAccepts, hmarket s hs, hfree]
    · rw [CellAccepts, CellAccepts, hmarket s hs, hside hs hfree]
  · exact List.filterMap_congr fun s _ => hcell s s.isLt
  · exact exists_congr fun s => and_congr_right fun hs => by rw [hmarket s hs]

theorem codec_located : PerpOrder.codec.Located
    (fun x start => ∀ s < 64, CellAccepts x start s) FreeCell listed where
  length_write orders := columns_located.length_write (columns orders)
  idle_within := by
    rintro x start p ⟨s, hs, _, hcell⟩
    have := inCell_within hs hcell
    have hsize : PerpOrder.codec.size = 1664 := rfl
    simp only [InBytes] at *
    omega
  reads {x start} hx ha kind := by
    show (columnsCodec.refine collect columns).read.runFrom _ = _
    rw [Codec.refine, Reader.runFrom_bind_of_ok (Reader.runFrom_get _),
      Reader.runFrom_bind_of_ok (columns_located.reads hx trivial kind), collect_cells ha]
    rfl
  refuses {x start} hx ha kind := by
    obtain ⟨fault, h⟩ := collect_cells_error ha start
    have hoffset : (Cursor.into kind x start).offset = start := rfl
    refine ⟨fault, start + columnsCodec.size, ?_⟩
    show ((columnsCodec.refine collect columns).read.runFrom _).1 = _
    rw [Codec.refine, Reader.runFrom_bind_of_ok (Reader.runFrom_get _),
      Reader.runFrom_bind_of_ok (columns_located.reads hx trivial kind), hoffset, h]
    rfl
  rewrites hx ha := masked_columns hx ha
  stable hx hy ha h := by
    obtain ⟨haccepts, hlisted, hfree⟩ := listed_stable hx hy h
    exact ⟨fun s hs => (haccepts s hs).mpr (ha s hs), hlisted, hfree⟩

end PerpOrder

namespace SpotOrder

/-- The side bit of slot `s` and the cells of its ids. -/
def InCell (start s p : Nat) : Prop :=
  p = 8 * (start + 16) + s ∨ InBytes (start + 32 + s * 16) 16 p ∨
    InBytes (start + 2080 + s * 8) 8 p

def Free (x : Bytes) (start s : Nat) : Prop := (natAt x start 16).testBit s = true

instance (x : Bytes) (start s : Nat) : Decidable (Free x start s) :=
  inferInstanceAs (Decidable (_ = true))

def FreeCell (x : Bytes) (start p : Nat) : Prop := ∃ s < 128, Free x start s ∧ InCell start s p

def cell (x : Bytes) (start s : Nat) : SpotOrder where
  slot := UInt8.ofNat s
  orderId := BitVec.ofNat 128 (natAt x (start + 32 + s * 16) 16)
  clientId := UInt64.ofNat (natAt x (start + 2080 + s * 8) 8)
  isBid := (natAt x (start + 16) 16).testBit s

def cell? (x : Bytes) (start s : Nat) : Option SpotOrder :=
  if Free x start s then none else some (cell x start s)

def cells (x : Bytes) (start : Nat) : Columns :=
  (BitVec.ofNat 128 (natAt x start 16), BitVec.ofNat 128 (natAt x (start + 16) 16),
    Vector.ofFn fun s => BitVec.ofNat 128 (natAt x (start + 32 + s * 16) 16),
    Vector.ofFn fun s => UInt64.ofNat (natAt x (start + 2080 + s * 8) 8))

def columnsCodec : Codec Columns :=
  u128.pair <| u128.pair <| (array spotOrderSlots u128).pair (array spotOrderSlots u64)

theorem columns_located :
    columnsCodec.Located (fun _ _ => True) (fun _ _ _ => False) cells := by
  have h := u128_located.pair (u128_located.pair
    ((u128_located.array spotOrderSlots).pair (u64_located.array spotOrderSlots)))
  refine h.congr (by simp) (by simp) fun x start => ?_
  simp [cells, spotOrderSlots]

theorem ofColumns_cells (x : Bytes) (start : Nat) (s : Fin spotOrderSlots) :
    ofColumns (cells x start) s = cell? x start s := by
  have hbit (n : Nat) : (BitVec.ofNat 128 n).getLsb s = n.testBit s := by
    show (BitVec.ofNat 128 n).toNat.testBit s = n.testBit s
    rw [BitVec.toNat_ofNat, Nat.testBit_mod_two_pow]
    simp [s.isLt]
  simp only [ofColumns, cells, hbit, Fin.getElem_fin, Vector.getElem_ofFn]
  by_cases hfree : Free x start s
  · rw [cell?, if_pos hfree]
    exact if_pos hfree
  · rw [cell?, if_neg hfree]
    exact if_neg hfree

theorem slot_of_cell? {x : Bytes} {start : Nat} {s : Fin spotOrderSlots} {order : SpotOrder}
    (h : cell? x start s = some order) : order.slot.toNat = s := by
  rw [cell?] at h
  split at h
  · cases h
  · cases h
    have hslot : s.val < 128 := s.isLt
    simp only [cell, UInt8.toNat_ofNat']
    omega

/-- The orders of a payload's words and arrays, by ascending slot. -/
def listed (x : Bytes) (start : Nat) : List SpotOrder :=
  (List.finRange spotOrderSlots).filterMap fun s : Fin spotOrderSlots => cell? x start s

theorem at?_listed (x : Bytes) (start : Nat) (s : Fin spotOrderSlots) :
    at? (listed x start) s = cell? x start s :=
  find_filterMap_finRange (k := fun order : SpotOrder => order.slot.toNat)
    (fun _ _ => slot_of_cell?) s

theorem mem_listed {x : Bytes} {start : Nat} {order : SpotOrder} (h : order ∈ listed x start) :
    ∃ s < 128, ¬Free x start s ∧ order = cell x start s ∧ order.slot.toNat = s := by
  obtain ⟨s, _, hs⟩ := List.mem_filterMap.mp h
  have hslot := slot_of_cell? hs
  rw [cell?] at hs
  split at hs
  · cases hs
  · exact ⟨s, s.isLt, ‹_›, (Option.some.inj hs).symm, hslot⟩

theorem cell_mem_listed {x : Bytes} {start s : Nat} (hs : s < 128) (hfree : ¬Free x start s) :
    cell x start s ∈ listed x start ∧ (cell x start s).slot.toNat = s := by
  have hcell : cell? x start (⟨s, hs⟩ : Fin spotOrderSlots) = some (cell x start s) := if_neg hfree
  exact ⟨List.mem_filterMap.mpr ⟨⟨s, hs⟩, List.mem_finRange _, hcell⟩, slot_of_cell? hcell⟩

/-- Without an order in it a slot is free, and the other way round. -/
theorem listed_all_ne {x : Bytes} {start s : Nat} (hs : s < 128) :
    ((listed x start).all fun order => order.slot.toNat != s) = true ↔ Free x start s := by
  rw [List.all_eq_true]
  constructor
  · intro h
    by_contra hfree
    obtain ⟨hmem, hslot⟩ := cell_mem_listed hs hfree
    simpa [hslot] using h _ hmem
  · intro hfree order horder
    obtain ⟨k, _, htaken, _, hslot⟩ := mem_listed horder
    have hne : k ≠ s := fun h => htaken (h ▸ hfree)
    simpa [hslot] using hne

theorem listed_any_isBid {x : Bytes} {start s : Nat} (hs : s < 128) :
    ((listed x start).any fun order => order.slot.toNat == s && order.isBid) = true ↔
      (natAt x (start + 16) 16).testBit s = true ∧ ¬Free x start s := by
  simp only [List.any_eq_true, Bool.and_eq_true, beq_iff_eq]
  constructor
  · rintro ⟨order, horder, rfl, hbid⟩
    obtain ⟨k, _, htaken, rfl, hslot⟩ := mem_listed horder
    rw [hslot]
    exact ⟨hbid, htaken⟩
  · rintro ⟨hbid, hfree⟩
    obtain ⟨hmem, hslot⟩ := cell_mem_listed hs hfree
    exact ⟨_, hmem, hslot, hbid⟩

theorem inCell_within {start s p : Nat} (hs : s < 128) (h : InCell start s p) :
    InBytes (start + 16) 3088 p := by
  simp only [InCell, InBytes] at *
  omega

theorem inCell_unique {start s k p : Nat} (hs : s < 128) (hk : k < 128)
    (h : InCell start s p) (h' : InCell start k p) : s = k := by
  simp only [InCell, InBytes] at *
  omega

theorem not_freeCell {x : Bytes} {start k p : Nat} (hk : k < 128) (hfree : ¬Free x start k)
    (hp : InCell start k p) : ¬FreeCell x start p :=
  Located.not_free_of_taken (p := p) (fun _ _ _ => inCell_unique) hk hfree hp

theorem bit_write_bitWord {p : Nat} (hp : p < 128) (f : Nat → Bool) :
    bit (u128.write (bitWord f)) p = f p := by
  have hword : bit (u128.write (bitWord f)) p = (bitWord f).toNat.testBit p :=
    bit_littleEndian (n := 16) hp _
  rw [hword]
  exact getLsb_bitWord f ⟨p, hp⟩

theorem masked_free {x : Bytes} {start : Nat} :
    Masked x start (FreeCell x start)
      (u128.write (bitWord fun s => (listed x start).all fun order => order.slot.toNat != s)) := by
  intro p hp
  have hp : p < 128 := by rwa [u128_located.length_write] at hp
  have hhole : ¬FreeCell x start (8 * start + p) := by
    rintro ⟨s, hs, _, hcell⟩
    have := (inCell_within hs hcell).1
    omega
  have hfree : Free x start p ↔ bit x (8 * start + p) = true := by
    rw [Free, testBit_natAt x start (by omega)]
  rw [bit_write_bitWord hp, listed_all_ne hp, hfree]
  exact (and_iff_left hhole).symm

theorem masked_sides {x : Bytes} {start : Nat} :
    Masked x (start + 16) (FreeCell x start) (u128.write (bitWord fun s =>
      (listed x start).any fun order => order.slot.toNat == s && order.isBid)) := by
  intro p hp
  have hp : p < 128 := by rwa [u128_located.length_write] at hp
  have hhole : FreeCell x start (8 * (start + 16) + p) ↔ Free x start p := by
    refine ⟨fun h => ?_, fun h => ⟨p, hp, h, .inl rfl⟩⟩
    by_contra hfree
    exact not_freeCell hp hfree (.inl rfl) h
  rw [bit_write_bitWord hp, listed_any_isBid hp, testBit_natAt x _ (by omega), hhole]

theorem cell?_elim {β : Type} (x : Bytes) (start s : Nat) (b : β) (f : SpotOrder → β) :
    (cell? x start s).elim b f = if Free x start s then b else f (cell x start s) := by
  rw [cell?]
  split <;> rfl

theorem masked_orderId {x : Bytes} {start k : Nat} (hx : start + 3104 ≤ x.length) (hk : k < 128) :
    Masked x (start + 32 + k * 16) (FreeCell x start)
      (u128.write ((cell? x start k).elim 0 SpotOrder.orderId)) := by
  rw [cell?_elim]
  exact u128_located.masked_cell (fun _ _ _ => inCell_unique)
    (by simp only [size_u128]; omega) trivial (bit_replicate_zero 16) hk fun _ => .inr ∘ .inl

theorem masked_clientId {x : Bytes} {start k : Nat} (hx : start + 3104 ≤ x.length) (hk : k < 128) :
    Masked x (start + 2080 + k * 8) (FreeCell x start)
      (u64.write ((cell? x start k).elim 0 SpotOrder.clientId)) := by
  rw [cell?_elim]
  exact u64_located.masked_cell (fun _ _ _ => inCell_unique)
    (by simp only [size_u64]; omega) trivial (bit_replicate_zero 8) hk fun _ => .inr ∘ .inr

theorem columns_listed (x : Bytes) (start : Nat) : columns (listed x start) =
    (bitWord fun s => (listed x start).all fun order => order.slot.toNat != s,
      bitWord fun s => (listed x start).any fun order => order.slot.toNat == s && order.isBid,
      Vector.ofFn fun s => (cell? x start s).elim 0 SpotOrder.orderId,
      Vector.ofFn fun s => (cell? x start s).elim 0 SpotOrder.clientId) := by
  have hslots : (Vector.ofFn fun s : Fin spotOrderSlots => at? (listed x start) s) =
      Vector.ofFn fun s : Fin spotOrderSlots => cell? x start s :=
    congrArg Vector.ofFn (funext fun s => at?_listed x start s)
  simp only [columns, hslots]
  refine Prod.ext rfl (Prod.ext rfl (Prod.ext ?_ ?_)) <;> exact Vector.map_ofFn

theorem masked_columns {x : Bytes} {start : Nat} (hx : start + 3104 ≤ x.length) :
    Masked x start (FreeCell x start) (columnsCodec.write (columns (listed x start))) := by
  rw [columns_listed]
  refine u128_located.masked_pair masked_free (u128_located.masked_pair masked_sides
    ((u128_located.array 128).masked_pair (u128_located.masked_array fun k => ?_)
      (u64_located.masked_array fun k => ?_)))
  · exact masked_orderId hx k.isLt
  · exact masked_clientId hx k.isLt

theorem listed_stable {x y : Bytes} {start : Nat} (hx : start + 3104 ≤ x.length)
    (hy : start + 3104 ≤ y.length)
    (h : ∀ p, InBytes start 3104 p → ¬FreeCell x start p → bit x p = bit y p) :
    listed y start = listed x start ∧ ∀ p, FreeCell y start p ↔ FreeCell x start p := by
  have hword : natAt y start 16 = natAt x start 16 := by
    refine natAt_eq_of_bits (by omega) (by omega) fun p hp => h p ?_ ?_
    · simp only [InBytes] at *
      omega
    · rintro ⟨k, hk, _, hcell⟩
      have := inCell_within hk hcell
      simp only [InBytes] at *
      omega
  have hfree (s : Nat) : Free y start s ↔ Free x start s := by rw [Free, Free, hword]
  have hother {s a n : Nat} (hs : s < 128) (htaken : ¬Free x start s)
      (hcell : ∀ p, InBytes a n p → InCell start s p) (hle : a + n ≤ start + 3104) :
      natAt y a n = natAt x a n := by
    refine natAt_eq_of_bits (by omega) (by omega) fun p hp => h p ?_ ?_
    · have := inCell_within hs (hcell p hp)
      simp only [InBytes] at *
      omega
    · exact not_freeCell hs htaken (hcell p hp)
  have hside {s : Nat} (hs : s < 128) (htaken : ¬Free x start s) :
      (natAt y (start + 16) 16).testBit s = (natAt x (start + 16) 16).testBit s := by
    rw [testBit_natAt _ _ (by omega), testBit_natAt _ _ (by omega)]
    refine (h _ ?_ (not_freeCell hs htaken (.inl rfl))).symm
    simp only [InBytes]
    omega
  have hcell (s : Nat) (hs : s < 128) : cell? y start s = cell? x start s := by
    by_cases htaken : Free x start s
    · rw [cell?, cell?, if_pos htaken, if_pos ((hfree s).mpr htaken)]
    · rw [cell?, cell?, if_neg htaken, if_neg (mt (hfree s).mp htaken), cell, cell,
        hside hs htaken, hother hs htaken (fun _ => .inr ∘ .inl) (by omega),
        hother hs htaken (fun _ => .inr ∘ .inr) (by omega)]
  refine ⟨List.filterMap_congr fun s _ => hcell s s.isLt, fun p => ?_⟩
  exact exists_congr fun s => and_congr_right fun _ => by rw [hfree s]

theorem codec_located :
    SpotOrder.codec.Located (fun _ _ => True) FreeCell listed where
  length_write orders := columns_located.length_write (columns orders)
  idle_within := by
    rintro x start p ⟨s, hs, _, hcell⟩
    have := inCell_within hs hcell
    have hsize : SpotOrder.codec.size = 3104 := rfl
    simp only [InBytes] at *
    omega
  reads {x start} hx _ kind := by
    have hread := columns_located.reads hx trivial kind
    have hlisted : (List.finRange spotOrderSlots).filterMap (ofColumns (cells x start)) =
        listed x start := List.filterMap_congr fun s _ => ofColumns_cells x start s
    show (columnsCodec.iso (fun columns => (List.finRange spotOrderSlots).filterMap
      (ofColumns columns)) columns).read.runFrom _ = _
    rw [Codec.iso, Reader.runFrom_bind_of_ok hread, hlisted]
    rfl
  refuses _ h := absurd trivial h
  rewrites hx _ := masked_columns hx
  stable hx hy _ h := ⟨trivial, listed_stable hx hy h⟩

end SpotOrder

end Solvency
