import Solvency.Proofs.Account.Slots

/-! Order lists scattered over columns. The columns are what entering the orders one after the
other leaves, so that the last order listed for a slot stands in it. The side of a spot order
is the exception: a slot that was a bid once stays one. -/

namespace Solvency

section Listed

variable {α β : Type} {n : Nat}

/-- A column of what is last under each key, read off the items by `f`. -/
def lastColumn (k : α → Nat) (n : Nat) (items : List α) (f : Option α → β) : Vector β n :=
  (Vector.ofFn fun i : Fin n => items.reverse.find? fun x => k x == i.val).map f

theorem lastColumn_nil (k : α → Nat) (f : Option α → β) :
    lastColumn k n [] f = Vector.replicate n (f none) := by
  ext
  simp [lastColumn]

theorem lastColumn_concat {k : α → Nat} {x : α} (h : k x < n) (items : List α)
    (f : Option α → β) :
    lastColumn k n (items ++ [x]) f = (lastColumn k n items f).set (k x) (f (some x)) h := by
  ext i hi
  simp only [lastColumn, Vector.getElem_map, Vector.getElem_ofFn, find_reverse_concat,
    Vector.getElem_set]
  split <;> rfl

theorem lastColumn_concat_of_le {k : α → Nat} {x : α} (h : n ≤ k x) (items : List α)
    (f : Option α → β) : lastColumn k n (items ++ [x]) f = lastColumn k n items f := by
  ext i hi
  simp only [lastColumn, Vector.getElem_map, Vector.getElem_ofFn, find_reverse_concat]
  rw [if_neg (by omega)]

end Listed

namespace PerpOrder

def blankColumns : Columns :=
  (Vector.replicate _ freeOrderSlot, Vector.replicate _ 0, Vector.replicate _ default,
    Vector.replicate _ 0)

/-- Writes an order over what its slot held. Orders beyond the last slot are passed over. -/
def enter (columns : Columns) (order : PerpOrder) : Columns :=
  let (markets, sides, ids, clients) := columns
  if h : order.slot.toNat < perpOrderSlots then
    (markets.set order.slot.toNat order.marketIndex h, sides.set order.slot.toNat order.side.code h,
      ids.set order.slot.toNat order.orderId h, clients.set order.slot.toNat order.clientOrderId h)
  else
    columns

theorem columns_eq_lastColumns (orders : List PerpOrder) :
    columns orders =
      (lastColumn (·.slot.toNat) _ orders (·.elim freeOrderSlot PerpOrder.marketIndex),
        lastColumn (·.slot.toNat) _ orders (·.elim 0 (·.side.code)),
        lastColumn (·.slot.toNat) _ orders (·.elim default PerpOrder.orderId),
        lastColumn (·.slot.toNat) _ orders (·.elim 0 PerpOrder.clientOrderId)) := rfl

theorem columns_concat (orders : List PerpOrder) (order : PerpOrder) :
    columns (orders ++ [order]) = enter (columns orders) order := by
  simp only [columns_eq_lastColumns, enter]
  by_cases h : order.slot.toNat < perpOrderSlots
  · have hset {β : Type} (f : Option PerpOrder → β) :=
      lastColumn_concat (k := fun order : PerpOrder => order.slot.toNat) h orders f
    simp only [dif_pos h, hset, Option.elim_some]
  · have hkept {β : Type} (f : Option PerpOrder → β) := lastColumn_concat_of_le
      (k := fun order : PerpOrder => order.slot.toNat) (Nat.le_of_not_lt h) orders f
    simp only [dif_neg h, hkept]

theorem columns_eq_foldl (orders : List PerpOrder) :
    columns orders = orders.foldl enter blankColumns := by
  induction orders using List.reverseRecOn with
  | nil =>
    simp only [columns_eq_lastColumns, lastColumn_nil, Option.elim_none]
    rfl
  | append_singleton orders order ih =>
    rw [columns_concat, List.foldl_append, ih]
    rfl

end PerpOrder

namespace SpotOrder

def blankColumns : Columns :=
  (BitVec.allOnes _, 0, Vector.replicate _ 0, Vector.replicate _ 0)

/-- Writes an order's ids over those its slot held. Its side bit is set for a bid and is left
as it was for an ask. -/
def enter (columns : Columns) (order : SpotOrder) : Columns :=
  let (free, bids, ids, clients) := columns
  if h : order.slot.toNat < spotOrderSlots then
    (free &&& ~~~BitVec.twoPow _ order.slot.toNat,
      if order.isBid then bids ||| BitVec.twoPow _ order.slot.toNat else bids,
      ids.set order.slot.toNat order.orderId h, clients.set order.slot.toNat order.clientId h)
  else
    columns

theorem eq_bitWord {word : BitVec spotOrderSlots} {bit : Nat → Bool}
    (h : ∀ slot < spotOrderSlots, word.getLsbD slot = bit slot) : word = bitWord bit := by
  refine BitVec.eq_of_getLsbD_eq fun slot hslot => ?_
  rw [h slot hslot]
  exact (getLsb_bitWord bit ⟨slot, hslot⟩).symm

theorem getLsbD_bitWord (bit : Nat → Bool) {slot : Nat} (h : slot < spotOrderSlots) :
    (bitWord bit).getLsbD slot = bit slot :=
  getLsb_bitWord bit ⟨slot, h⟩

theorem bitWord_congr {bit bit' : Nat → Bool}
    (h : ∀ slot < spotOrderSlots, bit slot = bit' slot) : bitWord bit = bitWord bit' :=
  eq_bitWord fun slot hslot => (getLsbD_bitWord bit hslot).trans (h slot hslot)

theorem bitWord_and_not (bit : Nat → Bool) (taken : Nat) :
    bitWord bit &&& ~~~BitVec.twoPow _ taken = bitWord fun slot => bit slot && taken != slot := by
  refine eq_bitWord fun slot hslot => ?_
  rw [BitVec.getLsbD_and, BitVec.getLsbD_not, BitVec.getLsbD_twoPow, getLsbD_bitWord bit hslot]
  by_cases h : taken = slot <;> simp [h, hslot]

theorem bitWord_or (bit : Nat → Bool) (taken : Nat) :
    bitWord bit ||| BitVec.twoPow _ taken = bitWord fun slot => bit slot || taken == slot := by
  refine eq_bitWord fun slot hslot => ?_
  rw [BitVec.getLsbD_or, BitVec.getLsbD_twoPow, getLsbD_bitWord bit hslot]
  by_cases h : taken = slot <;> simp [h, hslot]

theorem columns_eq_lastColumns (orders : List SpotOrder) :
    columns orders =
      (bitWord fun slot => orders.all fun order => order.slot.toNat != slot,
        bitWord fun slot => orders.any fun order => order.slot.toNat == slot && order.isBid,
        lastColumn (·.slot.toNat) _ orders (·.elim 0 SpotOrder.orderId),
        lastColumn (·.slot.toNat) _ orders (·.elim 0 SpotOrder.clientId)) := rfl

theorem columns_concat (orders : List SpotOrder) (order : SpotOrder) :
    columns (orders ++ [order]) = enter (columns orders) order := by
  have hall (slot : Nat) : ((orders ++ [order]).all fun other => other.slot.toNat != slot) =
      ((orders.all fun other => other.slot.toNat != slot) && order.slot.toNat != slot) := by simp
  have hany (slot : Nat) :
      ((orders ++ [order]).any fun other => other.slot.toNat == slot && other.isBid) =
        ((orders.any fun other => other.slot.toNat == slot && other.isBid) ||
          order.slot.toNat == slot && order.isBid) := by simp
  simp only [columns_eq_lastColumns, enter, hall, hany]
  by_cases h : order.slot.toNat < spotOrderSlots
  · have hset {β : Type} (f : Option SpotOrder → β) :=
      lastColumn_concat (k := fun order : SpotOrder => order.slot.toNat) h orders f
    simp only [dif_pos h, hset, bitWord_and_not, bitWord_or, Option.elim_some]
    cases order.isBid <;> simp
  · have hslot (slot : Nat) (hs : slot < spotOrderSlots) : order.slot.toNat ≠ slot := by omega
    have hkept {β : Type} (f : Option SpotOrder → β) := lastColumn_concat_of_le
      (k := fun order : SpotOrder => order.slot.toNat) (Nat.le_of_not_lt h) orders f
    simp only [dif_neg h, hkept]
    refine Prod.ext (bitWord_congr fun slot hs => ?_) (Prod.ext (bitWord_congr fun slot hs => ?_) rfl)
    · simp [hslot slot hs]
    · simp [hslot slot hs]

theorem columns_eq_foldl (orders : List SpotOrder) :
    columns orders = orders.foldl enter blankColumns := by
  induction orders using List.reverseRecOn with
  | nil =>
    simp only [columns_eq_lastColumns, lastColumn_nil, Option.elim_none]
    refine Prod.ext (eq_bitWord ?_).symm (Prod.ext (eq_bitWord ?_).symm rfl)
    · simp [blankColumns]
    · simp [blankColumns]
  | append_singleton orders order ih =>
    rw [columns_concat, List.foldl_append, ih]
    rfl

end SpotOrder

end Solvency
