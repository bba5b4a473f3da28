import Solvency.Proofs.Account.RoundTrip

/-! What is left of an account that no payload spells. Its payload has the length of its kind
all the same, and decodes to the account with its orders brought into the form that payloads
have. -/

namespace Solvency

open Codec

theorem PerpOrder.codec_readsBack {orders : List PerpOrder}
    (h : ∀ order, LastListed (·.slot.toNat) orders order → order.slot.toNat < perpOrderSlots →
      order.marketIndex.toNat < marketSlots ∨ order.marketIndex = freeOrderSlot) :
    ∃ kept, KeepsLast (·.slot.toNat) perpOrderSlots orders kept ∧
      PerpOrder.codec.ReadsBack orders (kept.filter (·.marketIndex != freeOrderSlot)) := by
  have hslot (start : Nat) (slot : Fin perpOrderSlots) :
      ofColumns (start + perpOrderSlots) (columns orders) slot =
        .ok ((at? orders slot).filter (·.marketIndex != freeOrderSlot)) := by
    refine ofColumns_columns (fun order hat => ?_) _
    obtain ⟨hlast, hs⟩ := find_reverse_eq_some_iff.mp hat
    exact h order hlast (hs ▸ slot.isLt)
  refine ⟨_, keepsLast_filterMap_finRange _ _ orders, ?_⟩
  refine ReadsBack.refine ((u8_faithful.array _).pair ((u8_faithful.array _).pair
    ((i128_faithful.array _).pair (u64_faithful.array _))) |>.readsBack (by simp)) fun start => ?_
  rw [mapM_reduceOption fun slot _ => hslot start slot, List.filter_filterMap]
  rfl

/-- Whatever becomes of the orders, the other fields are read as they were written. -/
theorem MarginAccount.codec_readsBack {a : MarginAccount} {kept : List PerpOrder}
    (hversion : a.version = 0 ∨ a.version = 1)
    (horders : PerpOrder.codec.ReadsBack a.perpOrders kept) :
    MarginAccount.codec.ReadsBack a { a with perpOrders := kept } := by
  have hheader := (header_faithful .marginAccount [0, 1]).readsBack
    (a := a.version) (by simpa using hversion)
  refine ReadsBack.iso (hheader.pair <| .pair (address_faithful.readsBack trivial) <|
    .pair (address_faithful.readsBack trivial) <| .pair ((bool_faithful.array _).readsBack ?_) <|
    .pair (u8_faithful.readsBack trivial) <| .pair ((fixed_faithful.array _).readsBack ?_) <|
    .pair ((fixed_faithful.array _).readsBack ?_) <|
    .pair ((address_faithful.array _).readsBack ?_) <|
    .pair ((PerpAccount.codec_faithful.array _).readsBack ?_) <| horders.pair <|
    .pair (u64_faithful.readsBack trivial) <| .pair (bool_faithful.readsBack trivial) <|
    .pair (bool_faithful.readsBack trivial) <| .pair ((u8_faithful.array _).readsBack ?_) <|
    .pair (address_faithful.readsBack trivial) <| .pair (bool_faithful.readsBack trivial) <|
    .before (address_faithful.readsBack trivial) ((blank_faithful 5).readsBack trivial)) rfl
  all_goals exact fun _ _ => trivial

theorem SpotOrder.sided_eq_self_iff {orders : List SpotOrder} {order : SpotOrder}
    (h : order ∈ orders) : sided orders order = order ↔
      ∀ other ∈ orders, other.slot = order.slot → other.isBid = true → order.isBid = true := by
  have hbid : sided orders order = order ↔ (orders.any fun other =>
      other.slot.toNat == order.slot.toNat && other.isBid) = order.isBid := by
    constructor
    · exact congrArg SpotOrder.isBid
    · intro hbid
      rw [sided, hbid]
  rw [hbid, Bool.eq_iff_iff]
  simp only [List.any_eq_true, Bool.and_eq_true, beq_iff_eq, UInt8.toNat_inj]
  constructor
  · intro hside other hother hslot hbid
    exact hside.mp ⟨other, hother, hslot, hbid⟩
  · intro hside
    refine ⟨?_, fun hbid => ⟨order, h, rfl, hbid⟩⟩
    rintro ⟨other, hother, hslot, hbid⟩
    exact hside other hother hslot hbid

theorem SpotOrder.codec_readsBack (orders : List SpotOrder) :
    ∃ kept, KeepsLast (·.slot.toNat) spotOrderSlots orders kept ∧
      SpotOrder.codec.ReadsBack orders (kept.map (sided orders)) := by
  refine ⟨_, keepsLast_filterMap_finRange _ _ orders, ?_⟩
  have hcolumns := (u128_faithful.pair (u128_faithful.pair
    ((u128_faithful.array _).pair (u64_faithful.array _)))).readsBack
    (a := columns orders) (by simp)
  refine ReadsBack.iso hcolumns ?_
  simp only [ofColumns_columns]
  rw [List.map_filterMap]
  rfl

theorem OpenOrders.codec_readsBack {o : OpenOrders} {kept : List SpotOrder}
    (hflags : o.accountFlags.contains (AccountFlags.initialized ||| AccountFlags.openOrders) = true)
    (hbase : o.baseTokenFree ≤ o.baseTokenTotal) (hquote : o.quoteTokenFree ≤ o.quoteTokenTotal)
    (horders : SpotOrder.codec.ReadsBack o.orders kept) :
    OpenOrders.codec.ReadsBack o { o with orders := kept } := by
  have hbalances := u64_faithful.pair (u64_faithful.pair (u64_faithful.pair u64_faithful))
  exact ReadsBack.iso (((Dex.flags_faithful _).readsBack hflags).pair <|
    .pair (address_faithful.readsBack trivial) <| .pair (address_faithful.readsBack trivial) <|
    .pair (hbalances.check.readsBack (by simp [hbase, hquote])) <| horders.pair <|
    .before (u64_faithful.readsBack trivial) ((marker_faithful _ _).readsBack trivial)) rfl

namespace Entity

theorem length_encode (e : Entity) : e.encode.length = e.kind.size := by
  cases e with
  | group value => exact Group.codec_faithful.length_write value
  | marginAccount value => exact MarginAccount.codec_faithful.length_write value
  | rootBank value => exact RootBank.codec_faithful.length_write value
  | perpMarket value => exact PerpMarket.codec_faithful.length_write value
  | openOrders value =>
    exact (OpenOrders.codec_faithful.length_write value).trans OpenOrders.size_codec
  | spotMarket value =>
    exact (SpotMarket.codec_faithful.length_write value).trans SpotMarket.size_codec
  | oraclePrice value => exact OraclePrice.codec_faithful.length_write value

/-- Every account is encoded in the length of its kind. A margin account with an accepted version,
whatever its orders, decodes to itself with the last order listed for each slot, by ascending
slot; what is listed beyond the last slot or in the market that marks free slots is left out. -/
theorem encode_normalises :
    (∀ e : Entity, e.encode.length = e.kind.size) ∧
    ∀ a : MarginAccount, a.version = 0 ∨ a.version = 1 →
      (∀ order, LastListed (·.slot.toNat) a.perpOrders order → order.slot.toNat < 64 →
        order.marketIndex.toNat < 15 ∨ order.marketIndex = 255) →
      ∃ kept, KeepsLast (·.slot.toNat) 64 a.perpOrders kept ∧
        decode (marginAccount a).tag (marginAccount a).encode =
          .ok (marginAccount { a with perpOrders := kept.filter (·.marketIndex != 255) }) := by
  refine ⟨length_encode, fun a hversion hmarkets => ?_⟩
  obtain ⟨kept, hkept, hread⟩ := PerpOrder.codec_readsBack hmarkets
  refine ⟨kept, hkept, ?_⟩
  rw [decode, tag, AccountKind.ofTag?_tag]
  exact congrArg (marginAccount <$> ·)
    ((MarginAccount.codec_readsBack hversion hread).unpack_write (length_encode (marginAccount a)))

/-- Slot 5 is listed twice, the first time in no market; slot 1 is marked free, and there is no
slot 70. -/
def crowded : MarginAccount :=
  { (default : MarginAccount) with
    version := 1
    perpOrders := [⟨5, 99, .bid, default, 1⟩, ⟨70, 200, .bid, default, 2⟩, ⟨5, 3, .ask, default, 3⟩,
      ⟨1, 255, .ask, default, 4⟩, ⟨0, 7, .bid, default, 5⟩] }

def lastOfCrowded : List PerpOrder :=
  [⟨0, 7, .bid, default, 5⟩, ⟨1, 255, .ask, default, 4⟩, ⟨5, 3, .ask, default, 3⟩]

theorem keepsLast_crowded : KeepsLast (·.slot.toNat) 64 crowded.perpOrders lastOfCrowded := by
  have hlast : (List.finRange 64).filterMap (fun slot => PerpOrder.at? crowded.perpOrders slot) =
      lastOfCrowded := by decide
  exact hlast ▸ keepsLast_filterMap_finRange _ _ _

theorem encode_normalises_crowded :
    decode (marginAccount crowded).tag (marginAccount crowded).encode = .ok (marginAccount
      { crowded with perpOrders := [⟨0, 7, .bid, default, 5⟩, ⟨5, 3, .ask, default, 3⟩] }) := by
  have hmarkets : ∀ order ∈ lastOfCrowded,
      order.marketIndex.toNat < 15 ∨ order.marketIndex = 255 := by decide
  obtain ⟨kept, hkept, hdecode⟩ := encode_normalises.2 crowded (.inr rfl) fun order hlast hslot =>
    hmarkets order ((keepsLast_crowded.mem_iff order).mpr ⟨hlast, hslot⟩)
  obtain rfl := hkept.unique keepsLast_crowded
  exact hdecode

theorem decode_encode_openOrders {o : OpenOrders}
    (hflags : o.accountFlags.contains (AccountFlags.initialized ||| AccountFlags.openOrders) = true)
    (hbase : o.baseTokenFree ≤ o.baseTokenTotal) (hquote : o.quoteTokenFree ≤ o.quoteTokenTotal) :
    ∃ kept, KeepsLast (·.slot.toNat) spotOrderSlots o.orders kept ∧
      decode (openOrders o).tag (openOrders o).encode =
        .ok (openOrders { o with orders := kept.map (SpotOrder.sided o.orders) }) := by
  obtain ⟨kept, hkept, hread⟩ := SpotOrder.codec_readsBack o.orders
  refine ⟨kept, hkept, ?_⟩
  rw [decode, tag, AccountKind.ofTag?_tag]
  exact congrArg (openOrders <$> ·)
    ((OpenOrders.codec_readsBack hflags hbase hquote hread).unpack_write
      (length_encode (openOrders o)))

/-- Open orders with the required flags, whatever their list, decode to themselves with the last
order listed for each slot, but a slot for which a bid is listed reads as a bid. So they decode
to the last orders exactly if no ask comes last after a bid. -/
theorem last_order_kept_unless_bid_replaced {o : OpenOrders}
    (hflags : o.accountFlags.contains (AccountFlags.initialized ||| AccountFlags.openOrders) = true)
    (hbase : o.baseTokenFree ≤ o.baseTokenTotal) (hquote : o.quoteTokenFree ≤ o.quoteTokenTotal) :
    (openOrders o).encode.length = 3228 ∧
    ∃ kept, KeepsLast (·.slot.toNat) 128 o.orders kept ∧
      decode (openOrders o).tag (openOrders o).encode =
        .ok (openOrders { o with orders := kept.map (SpotOrder.sided o.orders) }) ∧
      (decode (openOrders o).tag (openOrders o).encode = .ok (openOrders { o with orders := kept }) ↔
        ∀ last ∈ kept, ∀ other ∈ o.orders, other.slot = last.slot → other.isBid = true →
          last.isBid = true) := by
  obtain ⟨kept, hkept, hdecode⟩ := decode_encode_openOrders hflags hbase hquote
  refine ⟨length_encode (openOrders o), kept, hkept, hdecode, ?_⟩
  have hsame (last : SpotOrder) (hlast : last ∈ kept) :
      SpotOrder.sided o.orders last = last ↔
        ∀ other ∈ o.orders, other.slot = last.slot → other.isBid = true → last.isBid = true := by
    obtain ⟨before, after, hlisted, _⟩ := ((hkept.mem_iff last).mp hlast).1
    exact SpotOrder.sided_eq_self_iff (by simp [hlisted])
  have hmap : kept.map (SpotOrder.sided o.orders) = kept ↔
      ∀ last ∈ kept, SpotOrder.sided o.orders last = last := by
    simpa using List.map_inj_left (l := kept) (g := id)
  rw [hdecode, Except.ok.injEq, openOrders.injEq, OpenOrders.mk.injEq]
  simp only [true_and, and_true, hmap]
  exact forall₂_congr hsame

/-- In slot 3 an ask is listed after a bid. -/
def relisted : OpenOrders :=
  { (default : OpenOrders) with
    accountFlags := ⟨5⟩
    baseTokenTotal := 4
    orders := [⟨3, 7, 1, true⟩, ⟨9, 8, 2, false⟩, ⟨200, 5, 3, true⟩, ⟨3, 9, 4, false⟩] }

theorem keepsLast_relisted :
    KeepsLast (·.slot.toNat) 128 relisted.orders [⟨3, 9, 4, false⟩, ⟨9, 8, 2, false⟩] := by
  have hlast : (List.finRange 128).filterMap (fun slot => SpotOrder.at? relisted.orders slot) =
      [⟨3, 9, 4, false⟩, ⟨9, 8, 2, false⟩] := by decide
  exact hlast ▸ keepsLast_filterMap_finRange _ _ _

/-- The ask in slot 3 is read with its own ids and the side of the bid. -/
theorem last_order_kept_unless_bid_replaced_relisted :
    relisted.accountFlags.contains (AccountFlags.initialized ||| AccountFlags.openOrders) = true ∧
      relisted.baseTokenFree ≤ relisted.baseTokenTotal ∧
      relisted.quoteTokenFree ≤ relisted.quoteTokenTotal ∧
      decode (openOrders relisted).tag (openOrders relisted).encode =
        .ok (openOrders { relisted with orders := [⟨3, 9, 4, true⟩, ⟨9, 8, 2, false⟩] }) := by
  have hflags : relisted.accountFlags.contains
      (AccountFlags.initialized ||| AccountFlags.openOrders) = true := by decide
  have hbase : relisted.baseTokenFree ≤ relisted.baseTokenTotal := by decide
  have hquote : relisted.quoteTokenFree ≤ relisted.quoteTokenTotal := by decide
  obtain ⟨_, kept, hkept, hdecode, _⟩ :=
    last_order_kept_unless_bid_replaced hflags hbase hquote
  obtain rfl := hkept.unique keepsLast_relisted
  exact ⟨hflags, hbase, hquote, hdecode⟩

/-- So the last orders listed are not what open orders decode to. -/
theorem ask_read_as_replaced_bid :
    relisted.accountFlags.contains (AccountFlags.initialized ||| AccountFlags.openOrders) = true ∧
      relisted.baseTokenFree ≤ relisted.baseTokenTotal ∧
      relisted.quoteTokenFree ≤ relisted.quoteTokenTotal ∧
      ¬∃ kept, KeepsLast (·.slot.toNat) 128 relisted.orders kept ∧
        decode (openOrders relisted).tag (openOrders relisted).encode =
          .ok (openOrders { relisted with orders := kept }) := by
  have hflags : relisted.accountFlags.contains
      (AccountFlags.initialized ||| AccountFlags.openOrders) = true := by decide
  refine ⟨hflags, by decide, by decide, ?_⟩
  rintro ⟨kept, hkept, hlast⟩
  obtain ⟨kept', hkept', hdecode⟩ := decode_encode_openOrders hflags (by decide) (by decide)
  obtain rfl := hkept.unique keepsLast_relisted
  obtain rfl := hkept'.unique keepsLast_relisted
  rw [hlast] at hdecode
  have horders := congrArg OpenOrders.orders (openOrders.inj (Except.ok.inj hdecode))
  exact absurd horders (by decide)

end Entity

end Solvency
