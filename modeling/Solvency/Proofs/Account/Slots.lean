import Solvency.Account.OpenOrders
import Solvency.Account.MarginAccount
import Mathlib.Data.List.ReduceOption
import Mathlib.Data.List.Sort
import Solvency.Proofs.Bytes.Faithful
import Solvency.Proofs.Collections

/-! Lists of occupied slots beside arrays of all slots. What is collected from an array that a
list was spread over is the last item listed for each slot, by ascending slot; so a list that
ascends by slot is recovered. -/

namespace Solvency

section Listed

variable {α : Type} {n : Nat} {k : α → Nat} {items kept : List α}

theorem ascending_filterMap_finRange {pick : Fin n → Option α}
    (h : ∀ i x, pick i = some x → k x = i) :
    ((List.finRange n).filterMap pick).Pairwise (k · < k ·) := by
  refine (List.pairwise_lt_finRange n).filterMap pick ?_
  intro i j hij x hx y hy
  rw [h i x hx, h j y hy]
  exact hij

theorem eq_of_key_eq (hs : items.Pairwise (k · < k ·)) {x y : α} (hx : x ∈ items)
    (hy : y ∈ items) (h : k x = k y) : x = y := by
  induction hs with
  | nil => cases hx
  | cons hlt _ ih =>
    rcases List.mem_cons.mp hx with hxe | hx'
    · rcases List.mem_cons.mp hy with hye | hy'
      · rw [hxe, hye]
      · have := hlt y hy'
        rw [← hxe] at this
        omega
    · rcases List.mem_cons.mp hy with hye | hy'
      · have := hlt x hx'
        rw [← hye] at this
        omega
      · exact ih hx' hy'

/-- The last of the items that are listed under its key. -/
def LastListed (k : α → Nat) (items : List α) (x : α) : Prop :=
  ∃ before after, items = before ++ x :: after ∧ ∀ later ∈ after, k later ≠ k x

/-- By ascending key, the last item that is listed under each key below `n`. -/
structure KeepsLast (k : α → Nat) (n : Nat) (items kept : List α) : Prop where
  ascending : kept.Pairwise (k · < k ·)
  mem_iff : ∀ x, x ∈ kept ↔ LastListed k items x ∧ k x < n

theorem find_reverse_eq_some_iff {i : Nat} {x : α} :
    items.reverse.find? (fun y => k y == i) = some x ↔ LastListed k items x ∧ k x = i := by
  rw [List.find?_eq_some_iff_append]
  constructor
  · rintro ⟨hx, after, before, hitems, hafter⟩
    have hx : k x = i := beq_iff_eq.mp hx
    refine ⟨⟨before.reverse, after.reverse, ?_, fun later hlater => ?_⟩, hx⟩
    · rw [← items.reverse_reverse, hitems]
      simp
    · have hne := hafter later (List.mem_reverse.mp hlater)
      rw [hx]
      simpa using hne
  · rintro ⟨⟨before, after, rfl, hafter⟩, rfl⟩
    refine ⟨beq_self_eq_true _, after.reverse, before.reverse, by simp, fun later hlater => ?_⟩
    simpa using hafter later (List.mem_reverse.mp hlater)

theorem find_reverse_concat (items : List α) (x : α) (i : Nat) :
    (items ++ [x]).reverse.find? (fun y => k y == i) =
      if k x = i then some x else items.reverse.find? fun y => k y == i := by
  rw [List.reverse_append, List.reverse_singleton, List.singleton_append, List.find?_cons]
  by_cases hx : k x = i
  · simp [hx]
  · rw [if_neg hx, beq_false_of_ne hx]

/-- Picking the last item of every key in turn keeps the last ones. -/
theorem keepsLast_filterMap_finRange (k : α → Nat) (n : Nat) (items : List α) :
    KeepsLast k n items
      ((List.finRange n).filterMap fun i => items.reverse.find? fun x => k x == i.val) where
  ascending := ascending_filterMap_finRange fun _ _ hx => (find_reverse_eq_some_iff.mp hx).2
  mem_iff x := by
    simp only [List.mem_filterMap, List.mem_finRange, true_and, find_reverse_eq_some_iff]
    constructor
    · rintro ⟨i, hlast, hi⟩
      exact ⟨hlast, hi ▸ i.isLt⟩
    · rintro ⟨hlast, hlt⟩
      exact ⟨⟨k x, hlt⟩, hlast, rfl⟩

theorem KeepsLast.unique {kept' : List α} (h : KeepsLast k n items kept)
    (h' : KeepsLast k n items kept') : kept = kept' := by
  have : Std.Irrefl fun x y : α => k x < k y := ⟨fun x => Nat.lt_irrefl (k x)⟩
  have : Std.Antisymm fun x y : α => k x < k y := ⟨fun x y hxy hyx => by omega⟩
  exact h.ascending.eq_of_mem_iff h'.ascending fun x => (h.mem_iff x).trans (h'.mem_iff x).symm

theorem lastListed_iff_mem (hs : items.Pairwise (k · < k ·)) {x : α} :
    LastListed k items x ↔ x ∈ items := by
  constructor
  · rintro ⟨before, after, rfl, _⟩
    simp
  · intro hx
    obtain ⟨before, after, rfl⟩ := List.append_of_mem hx
    have hafter := (List.pairwise_cons.mp (List.pairwise_append.mp hs).2.1).1
    exact ⟨before, after, rfl, fun later hlater => (Nat.ne_of_lt (hafter later hlater)).symm⟩

theorem find_reverse_eq_some (hs : items.Pairwise (k · < k ·)) {i : Nat} {x : α} :
    items.reverse.find? (fun y => k y == i) = some x ↔ x ∈ items ∧ k x = i := by
  rw [find_reverse_eq_some_iff, lastListed_iff_mem hs]

theorem filterMap_finRange_find (hs : items.Pairwise (k · < k ·))
    (hb : ∀ x ∈ items, k x < n) :
    (List.finRange n).filterMap (fun i => items.reverse.find? fun x => k x == i.val) = items := by
  refine (keepsLast_filterMap_finRange k n items).unique ⟨hs, fun x => ?_⟩
  rw [lastListed_iff_mem hs]
  exact (and_iff_left_of_imp (hb x)).symm

end Listed

/-- Order lists of a margin account: ascending occupied slots, each in a market of the group. -/
def PerpOrder.Canonical (orders : List PerpOrder) : Prop :=
  orders.Pairwise (·.slot < ·.slot) ∧
    ∀ order ∈ orders, order.slot.toNat < perpOrderSlots ∧ order.marketIndex.toNat < marketSlots

def SpotOrder.Canonical (orders : List SpotOrder) : Prop :=
  orders.Pairwise (·.slot < ·.slot) ∧ ∀ order ∈ orders, order.slot.toNat < spotOrderSlots

theorem reduceOption_of_forall₂ {α β ε : Type} {f : α → Except ε (Option β)} {items : List α}
    {results : List (Option β)} (h : List.Forall₂ (fun a b => f a = .ok b) items results) :
    results.reduceOption = items.filterMap fun a => (f a).toOption.join := by
  induction h with
  | nil => rfl
  | @cons a b items results ha _ ih =>
    cases b with
    | none => rw [List.reduceOption_cons_of_none, ih, List.filterMap_cons, ha]; rfl
    | some b => rw [List.reduceOption_cons_of_some, ih, List.filterMap_cons, ha]; rfl

theorem mapM_reduceOption {α β ε : Type} {f : α → Except ε (Option β)} {pick : α → Option β}
    {items : List α} (h : ∀ a ∈ items, f a = .ok (pick a)) :
    (do return (← items.mapM f).reduceOption) = .ok (items.filterMap pick) := by
  rw [mapM_eq_ok_map h]
  show Except.ok (List.filterMap id (List.map _ _)) = _
  rw [List.filterMap_map]
  rfl

namespace PerpOrder

/-- What is read from a slot. An order listed in the market that marks free slots is lost. -/
theorem ofColumns_columns {orders : List PerpOrder} {slot : Fin perpOrderSlots}
    (h : ∀ order, at? orders slot = some order →
      order.marketIndex.toNat < marketSlots ∨ order.marketIndex = freeOrderSlot)
    (sidesStart : Nat) : ofColumns sidesStart (columns orders) slot =
      .ok ((at? orders slot).filter (·.marketIndex != freeOrderSlot)) := by
  cases hat : at? orders slot with
  | none => simp [ofColumns, columns, hat]
  | some order =>
    have hslot : order.slot.toNat = slot := by simpa using List.find?_some hat
    have hside : Side.ofCode? order.side.code = some order.side := by
      cases order.side <;> rfl
    have hof : UInt8.ofNat slot = order.slot := by simp [← hslot]
    by_cases hfree : order.marketIndex = freeOrderSlot
    · simp [ofColumns, columns, hat, hfree, Option.filter]
    · have hmarket := (h order hat).resolve_right hfree
      simp [ofColumns, columns, hat, hfree, hmarket, hside, hof, Option.filter]

theorem ne_freeOrderSlot {order : PerpOrder} (h : order.marketIndex.toNat < marketSlots) :
    order.marketIndex ≠ freeOrderSlot := by
  intro he
  rw [he] at h
  exact absurd h (by decide)

theorem ofColumns_columns_of_canonical {orders : List PerpOrder} (h : PerpOrder.Canonical orders)
    (sidesStart : Nat) (slot : Fin perpOrderSlots) :
    ofColumns sidesStart (columns orders) slot = .ok (at? orders slot) := by
  have hmarket (order : PerpOrder) (hat : at? orders slot = some order) :
      order.marketIndex.toNat < marketSlots :=
    (h.2 order (by simpa using List.mem_of_find?_eq_some hat)).2
  rw [ofColumns_columns fun order hat => .inl (hmarket order hat)]
  cases hat : at? orders slot with
  | none => rfl
  | some order => simp [ne_freeOrderSlot (hmarket order hat), Option.filter]

theorem of_ofColumns {sidesStart : Nat} {cols : Columns} {slot : Fin perpOrderSlots}
    {order : PerpOrder} (h : ofColumns sidesStart cols slot = .ok (some order)) :
    order.slot.toNat = slot ∧ order.marketIndex.toNat < marketSlots := by
  obtain ⟨markets, sides, ids, clients⟩ := cols
  simp only [ofColumns] at h
  split at h
  · cases h
  · split at h
    · cases h
    · rename_i hmarket
      split at h
      · cases h
      · cases h
        have hslot : slot.val < 64 := slot.isLt
        exact ⟨by simp only [UInt8.toNat_ofNat']; omega, Nat.lt_of_not_le hmarket⟩

theorem codec_faithful : PerpOrder.codec.Faithful PerpOrder.Canonical := by
  refine ((Codec.u8_faithful.array _).pair ((Codec.u8_faithful.array _).pair
    ((Codec.i128_faithful.array _).pair (Codec.u64_faithful.array _)))).refine ?_ ?_
  · intro orders h
    have hback := filterMap_finRange_find (n := perpOrderSlots) (k := (·.slot.toNat)) h.1
      fun order ho => (h.2 order ho).1
    refine ⟨by simp, fun start => ?_⟩
    rw [mapM_reduceOption fun slot _ =>
      ofColumns_columns_of_canonical h (start + perpOrderSlots) slot]
    exact congrArg Except.ok hback
  · intro start cols orders _ h
    cases hm : (List.finRange perpOrderSlots).mapM (ofColumns (start + perpOrderSlots) cols) with
    | error fault => simp [hm] at h
    | ok results =>
      rw [hm] at h
      obtain rfl : results.reduceOption = orders := Except.ok.inj h
      rw [reduceOption_of_forall₂ (mapM_eq_ok_iff.mp hm)]
      have hpick (slot : Fin perpOrderSlots) (order : PerpOrder)
          (ho : (ofColumns (start + perpOrderSlots) cols slot).toOption.join = some order) :
          order.slot.toNat = slot ∧ order.marketIndex.toNat < marketSlots := by
        cases hc : ofColumns (start + perpOrderSlots) cols slot with
        | error fault => simp [hc, Except.toOption] at ho
        | ok found =>
          obtain rfl : found = some order := by simpa [hc, Except.toOption] using ho
          exact of_ofColumns hc
      refine ⟨ascending_filterMap_finRange (k := (·.slot.toNat))
        fun slot order ho => (hpick slot order ho).1, fun order ho => ?_⟩
      obtain ⟨slot, _, ho⟩ := List.mem_filterMap.mp ho
      obtain ⟨hslot, hmarket⟩ := hpick slot order ho
      exact ⟨hslot ▸ slot.isLt, hmarket⟩

end PerpOrder

namespace SpotOrder

theorem foldr_add_init (weight : Nat → Nat) (indexes : List Nat) (init : Nat) :
    indexes.foldr (fun i sum => sum + weight i) init =
      indexes.foldr (fun i sum => sum + weight i) 0 + init := by
  induction indexes with
  | nil => simp
  | cons i rest ih =>
    simp only [List.foldr_cons, ih]
    omega

theorem sum_bits (bit : Nat → Bool) (n : Nat) :
    let sum := (List.range n).foldr (fun i sum => sum + (bit i).toNat <<< i) 0
    sum < 2 ^ n ∧ ∀ i < n, sum.testBit i = bit i := by
  induction n with
  | zero => simp
  | succ n ih =>
    obtain ⟨hlt, hbits⟩ := ih
    have hnew : (bit n).toNat <<< n = 2 ^ n * (bit n).toNat := by
      rw [Nat.shiftLeft_eq, Nat.mul_comm]
    simp only [List.range_succ, List.foldr_append, List.foldr_cons, List.foldr_nil]
    rw [foldr_add_init, Nat.add_comm, Nat.zero_add, hnew]
    constructor
    · have := Bool.toNat_le (bit n)
      have := Nat.mul_le_mul_left (2 ^ n) this
      rw [Nat.pow_succ]
      omega
    · intro i hi
      rw [Nat.testBit_two_pow_mul_add _ hlt]
      by_cases hin : i < n
      · simp only [hin, if_true]
        exact hbits i hin
      · obtain rfl : i = n := by omega
        cases bit i <;> simp

theorem getLsb_bitWord (bit : Nat → Bool) (slot : Fin spotOrderSlots) :
    (bitWord bit).getLsb slot = bit slot := by
  show (bitWord bit).toNat.testBit slot = bit slot
  rw [BitVec.testBit_toNat, bitWord, BitVec.getLsbD_ofNat,
    (sum_bits bit spotOrderSlots).2 slot slot.isLt]
  simp [slot.isLt]

theorem any_isBid {orders : List SpotOrder} (h : SpotOrder.Canonical orders) {order : SpotOrder}
    (hmem : order ∈ orders) :
    (orders.any fun other => other.slot.toNat == order.slot.toNat && other.isBid) =
      order.isBid := by
  rw [Bool.eq_iff_iff]
  simp only [List.any_eq_true, Bool.and_eq_true, beq_iff_eq]
  constructor
  · rintro ⟨other, hother, hslot, hbid⟩
    have he : other = order :=
      eq_of_key_eq (k := fun o : SpotOrder => o.slot.toNat) h.1 hother hmem hslot
    exact he ▸ hbid
  · intro hbid
    exact ⟨order, hmem, rfl, hbid⟩

/-- An order on the side that its slot has: a bid if any order listed for the slot is one. -/
def sided (orders : List SpotOrder) (order : SpotOrder) : SpotOrder :=
  { order with
    isBid := orders.any fun other => other.slot.toNat == order.slot.toNat && other.isBid }

theorem ofColumns_columns (orders : List SpotOrder) (slot : Fin spotOrderSlots) :
    ofColumns (columns orders) slot = (at? orders slot).map (sided orders) := by
  simp only [ofColumns, columns, getLsb_bitWord]
  cases hat : at? orders slot with
  | none =>
    have hfree : (orders.all fun order => order.slot.toNat != slot) = true := by
      simpa [at?, List.find?_eq_none] using hat
    simp [hfree]
  | some order =>
    have hmem : order ∈ orders := by simpa using List.mem_of_find?_eq_some hat
    have hslot : order.slot.toNat = slot := by simpa using List.find?_some hat
    have hof : UInt8.ofNat slot = order.slot := by simp [← hslot]
    have htaken : (orders.all fun order => order.slot.toNat != slot) = false :=
      List.all_eq_false.mpr ⟨order, hmem, by simp [hslot]⟩
    simp [htaken, hat, hof, sided, hslot]

theorem sided_of_canonical {orders : List SpotOrder} (h : SpotOrder.Canonical orders)
    {order : SpotOrder} (hmem : order ∈ orders) : sided orders order = order := by
  rw [sided, any_isBid h hmem]

theorem ofColumns_columns_of_canonical {orders : List SpotOrder} (h : SpotOrder.Canonical orders)
    (slot : Fin spotOrderSlots) : ofColumns (columns orders) slot = at? orders slot := by
  rw [ofColumns_columns]
  cases hat : at? orders slot with
  | none => rfl
  | some order =>
    have hmem : order ∈ orders := by simpa using List.mem_of_find?_eq_some hat
    rw [Option.map_some, sided_of_canonical h hmem]

theorem slot_of_ofColumns {cols : Columns} {slot : Fin spotOrderSlots} {order : SpotOrder}
    (h : ofColumns cols slot = some order) : order.slot.toNat = slot := by
  obtain ⟨free, bids, ids, clients⟩ := cols
  simp only [ofColumns] at h
  split at h
  · cases h
  · cases h
    have hslot : slot.val < 128 := slot.isLt
    simp only [UInt8.toNat_ofNat']
    omega

theorem codec_faithful : SpotOrder.codec.Faithful SpotOrder.Canonical := by
  refine (Codec.u128_faithful.pair (Codec.u128_faithful.pair
    ((Codec.u128_faithful.array _).pair (Codec.u64_faithful.array _)))).iso ?_ ?_
  · intro orders h
    refine ⟨by simp, ?_⟩
    simp only [ofColumns_columns_of_canonical h]
    exact filterMap_finRange_find (k := fun order : SpotOrder => order.slot.toNat) h.1 h.2
  · intro cols _
    refine ⟨ascending_filterMap_finRange (k := fun order : SpotOrder => order.slot.toNat)
      fun _ _ => slot_of_ofColumns, fun order ho => ?_⟩
    obtain ⟨slot, _, ho⟩ := List.mem_filterMap.mp ho
    exact slot_of_ofColumns ho ▸ slot.isLt

end SpotOrder

end Solvency
