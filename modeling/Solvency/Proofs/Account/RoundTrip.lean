import Solvency.Proofs.Account.Layouts

/-! Decoding undoes encoding for the canonical accounts and for no others, and gives
canonical accounts only. -/

namespace Solvency

theorem OpenOrders.size_codec : OpenOrders.codec.size = AccountKind.openOrders.size := by
  decide +kernel

theorem SpotMarket.size_codec : SpotMarket.codec.size = AccountKind.spotMarket.size := by
  decide +kernel

namespace Entity

/-- Accounts that some payload spells: an accepted header version, counts within their arrays,
required flags, free balances within totals, and order lists as they are collected. -/
def Canonical : Entity → Prop
  | group value => value.Canonical
  | marginAccount value => value.Canonical
  | rootBank value => value.Canonical
  | perpMarket value => value.Canonical
  | openOrders value => value.Canonical
  | spotMarket value => value.Canonical
  | oraclePrice value => value.Canonical

theorem unpack_encode {e : Entity} (h : e.Canonical) : unpack e.encode e.kind = .ok e := by
  cases e with
  | group value => exact congrArg (group <$> ·) (Group.codec_faithful.unpack_write rfl h)
  | marginAccount value =>
    exact congrArg (marginAccount <$> ·) (MarginAccount.codec_faithful.unpack_write rfl h)
  | rootBank value => exact congrArg (rootBank <$> ·) (RootBank.codec_faithful.unpack_write rfl h)
  | perpMarket value =>
    exact congrArg (perpMarket <$> ·) (PerpMarket.codec_faithful.unpack_write rfl h)
  | openOrders value =>
    exact congrArg (openOrders <$> ·)
      (OpenOrders.codec_faithful.unpack_write OpenOrders.size_codec h)
  | spotMarket value =>
    exact congrArg (spotMarket <$> ·)
      (SpotMarket.codec_faithful.unpack_write SpotMarket.size_codec h)
  | oraclePrice value =>
    exact congrArg (oraclePrice <$> ·) (OraclePrice.codec_faithful.unpack_write rfl h)

theorem decode_encode {e : Entity} (h : e.Canonical) : decode e.tag e.encode = .ok e := by
  rw [decode, tag, AccountKind.ofTag?_tag]
  exact unpack_encode h

theorem canonical_of_unpack {data : Bytes} {kind : AccountKind} {e : Entity}
    (h : unpack data kind = .ok e) : e.Canonical ∧ e.kind = kind := by
  cases kind with
  | group =>
    obtain ⟨value, hv, rfl⟩ := map_eq_ok_iff.mp h
    exact ⟨Group.codec_faithful.good_of_unpack hv, rfl⟩
  | marginAccount =>
    obtain ⟨value, hv, rfl⟩ := map_eq_ok_iff.mp h
    exact ⟨MarginAccount.codec_faithful.good_of_unpack hv, rfl⟩
  | rootBank =>
    obtain ⟨value, hv, rfl⟩ := map_eq_ok_iff.mp h
    exact ⟨RootBank.codec_faithful.good_of_unpack hv, rfl⟩
  | perpMarket =>
    obtain ⟨value, hv, rfl⟩ := map_eq_ok_iff.mp h
    exact ⟨PerpMarket.codec_faithful.good_of_unpack hv, rfl⟩
  | openOrders =>
    obtain ⟨value, hv, rfl⟩ := map_eq_ok_iff.mp h
    exact ⟨OpenOrders.codec_faithful.good_of_unpack hv, rfl⟩
  | spotMarket =>
    obtain ⟨value, hv, rfl⟩ := map_eq_ok_iff.mp h
    exact ⟨SpotMarket.codec_faithful.good_of_unpack hv, rfl⟩
  | oraclePrice =>
    obtain ⟨value, hv, rfl⟩ := map_eq_ok_iff.mp h
    exact ⟨OraclePrice.codec_faithful.good_of_unpack hv, rfl⟩

theorem canonical_of_decode {tag : UInt8} {data : Bytes} {e : Entity}
    (h : decode tag data = .ok e) : e.Canonical ∧ e.tag = tag := by
  rw [decode] at h
  cases hkind : AccountKind.ofTag? tag with
  | none => simp [hkind] at h
  | some kind =>
    obtain ⟨hcanonical, hk⟩ := canonical_of_unpack (by simpa [hkind] using h)
    have htag : kind.tag = tag := by simpa [AccountKind.ofTag?] using List.find?_some hkind
    exact ⟨hcanonical, by rw [Entity.tag, hk, htag]⟩

/-- An account survives its payload exactly when it is canonical, and a payload that is
accepted under a tag gives a canonical account with that tag. -/
theorem decode_encode_iff_canonical :
    (∀ e : Entity, decode e.tag e.encode = .ok e ↔ e.Canonical) ∧
      ∀ (tag : UInt8) (data : Bytes) (e : Entity),
        decode tag data = .ok e → e.Canonical ∧ e.tag = tag :=
  ⟨fun _ => ⟨fun h => (canonical_of_decode h).1, decode_encode⟩,
    fun _ _ _ => canonical_of_decode⟩

/-- A bid and an ask of a market, with some of both tokens locked. -/
def listedOrders : OpenOrders :=
  { (default : OpenOrders) with
    accountFlags := ⟨AccountFlags.initialized ||| AccountFlags.openOrders⟩
    baseTokenFree := 1
    baseTokenTotal := 4
    quoteTokenFree := 2
    quoteTokenTotal := 9
    orders := [⟨3, 7, 1, true⟩, ⟨127, 9, 4, false⟩] }

/-- Perpetual orders in the first slot and in the last one. -/
def listedAccount : MarginAccount :=
  { (default : MarginAccount) with
    version := 1
    perpOrders := [⟨0, 2, .bid, ⟨5⟩, 1⟩, ⟨63, 14, .ask, ⟨6⟩, 2⟩] }

/-- More of a token is free than there is of it. -/
def overdrawnOrders : OpenOrders := { listedOrders with baseTokenTotal := 0 }

theorem decode_encode_listed :
    (openOrders listedOrders).Canonical ∧ (marginAccount listedAccount).Canonical ∧
      decode 32 (openOrders listedOrders).encode = .ok (openOrders listedOrders) ∧
      decode 1 (marginAccount listedAccount).encode = .ok (marginAccount listedAccount) ∧
      (openOrders listedOrders).tag = 32 ∧ (marginAccount listedAccount).tag = 1 ∧
      decode 32 (openOrders overdrawnOrders).encode ≠ .ok (openOrders overdrawnOrders) := by
  have hbook : SpotOrder.Canonical listedOrders.orders := by
    simp [SpotOrder.Canonical, listedOrders, spotOrderSlots]
  have horders : (openOrders listedOrders).Canonical :=
    ⟨by decide, by decide, by decide, hbook⟩
  have hlist : PerpOrder.Canonical listedAccount.perpOrders := by
    simp [PerpOrder.Canonical, listedAccount, perpOrderSlots, marketSlots]
  have haccount : (marginAccount listedAccount).Canonical := ⟨.inr rfl, hlist⟩
  have hdecodeOrders := (decode_encode_iff_canonical.1 (openOrders listedOrders)).mpr horders
  have hdecodeAccount := (decode_encode_iff_canonical.1 (marginAccount listedAccount)).mpr haccount
  refine ⟨horders, haccount, hdecodeOrders, hdecodeAccount,
    (decode_encode_iff_canonical.2 32 _ _ hdecodeOrders).2,
    (decode_encode_iff_canonical.2 1 _ _ hdecodeAccount).2, fun hdecode => ?_⟩
  have hcanonical := (decode_encode_iff_canonical.1 (openOrders overdrawnOrders)).mp hdecode
  exact absurd hcanonical.base (by decide)

end Entity

end Solvency
