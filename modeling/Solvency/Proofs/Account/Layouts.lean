import Solvency.Account.Entity
import Solvency.Proofs.Account.Slots

/-! Which values of each kind of account are canonical, and that each layout is
faithful on exactly those. -/

namespace Solvency

open Codec

theorem header_faithful (dataType : DataType) (versions : List UInt8) :
    (header dataType versions).Faithful (· ∈ versions) := by
  have hbool : (bool.check id fun _ => .notInitialized).Faithful _ := bool_faithful.check
  refine (u8_faithful.check.pair (u8_faithful.check.pair
    (hbool.before (blank_faithful 5) trivial))).iso ?_ ?_
  · intro version hv
    simpa using hv
  · rintro ⟨kind, version, flag⟩ ⟨_, ⟨_, hv⟩, _⟩
    simpa using hv

theorem TokenInfo.codec_faithful : TokenInfo.codec.Faithful fun _ => True :=
  (address_faithful.pair (address_faithful.pair (u8_faithful.before (blank_faithful 7) trivial))).iso
    (fun _ _ => ⟨⟨trivial, trivial, trivial⟩, rfl⟩) fun _ _ => trivial

theorem SpotMarketInfo.codec_faithful : SpotMarketInfo.codec.Faithful fun _ => True :=
  (address_faithful.pair (fixed_faithful.pair (fixed_faithful.pair (fixed_faithful.pair
    (fixed_faithful.pair fixed_faithful))))).iso
    (fun _ _ => ⟨by simp, rfl⟩) fun _ _ => trivial

theorem PerpMarketInfo.codec_faithful : PerpMarketInfo.codec.Faithful fun _ => True :=
  (address_faithful.pair (fixed_faithful.pair (fixed_faithful.pair (fixed_faithful.pair
    (fixed_faithful.pair (fixed_faithful.pair (fixed_faithful.pair (fixed_faithful.pair
    (i64_faithful.pair i64_faithful))))))))).iso
    (fun _ _ => ⟨by simp, rfl⟩) fun _ _ => trivial

def Group.Canonical (g : Group) : Prop := g.version = 0 ∧ g.numOracles ≤ 15

theorem Group.codec_faithful : Group.codec.Faithful Group.Canonical := by
  refine ((header_faithful .group [0]).pair (u64_faithful.check.pair
    ((TokenInfo.codec_faithful.array _).pair ((SpotMarketInfo.codec_faithful.array _).pair
    ((PerpMarketInfo.codec_faithful.array _).pair ((address_faithful.array _).pair
    (u64_faithful.pair (address_faithful.pair (address_faithful.pair (address_faithful.pair
    (address_faithful.pair (u64_faithful.pair (address_faithful.pair (address_faithful.pair
    (address_faithful.pair (address_faithful.pair (u32_faithful.pair (u32_faithful.pair
    (u32_faithful.pair (u32_faithful.pair (u64_faithful.before (blank_faithful 8)
    trivial))))))))))))))))))))).iso ?_ ?_
  · intro g hg
    exact ⟨by simpa [Group.Canonical] using hg, rfl⟩
  · intro fields h
    simpa [Group.Canonical] using h

theorem PerpAccount.codec_faithful : PerpAccount.codec.Faithful fun _ => True :=
  (i64_faithful.pair (fixed_faithful.pair (fixed_faithful.pair (fixed_faithful.pair
    (i64_faithful.pair (i64_faithful.pair (i64_faithful.pair (i64_faithful.pair
    u64_faithful)))))))).iso
    (fun _ _ => ⟨by simp, rfl⟩) fun _ _ => trivial

def MarginAccount.Canonical (a : MarginAccount) : Prop :=
  (a.version = 0 ∨ a.version = 1) ∧ PerpOrder.Canonical a.perpOrders

theorem MarginAccount.codec_faithful : MarginAccount.codec.Faithful MarginAccount.Canonical := by
  refine ((header_faithful .marginAccount [0, 1]).pair (address_faithful.pair
    (address_faithful.pair ((bool_faithful.array _).pair (u8_faithful.pair
    ((fixed_faithful.array _).pair ((fixed_faithful.array _).pair ((address_faithful.array _).pair
    ((PerpAccount.codec_faithful.array _).pair (PerpOrder.codec_faithful.pair (u64_faithful.pair
    (bool_faithful.pair (bool_faithful.pair ((u8_faithful.array 32).pair (address_faithful.pair
    (bool_faithful.pair (address_faithful.before (blank_faithful 5)
    trivial))))))))))))))))).iso ?_ ?_
  · intro a ha
    exact ⟨by simpa [MarginAccount.Canonical] using ha, rfl⟩
  · intro fields h
    simpa [MarginAccount.Canonical] using h

def RootBank.Canonical (b : RootBank) : Prop := b.version = 0 ∧ b.numNodeBanks ≤ 8

theorem RootBank.codec_faithful : RootBank.codec.Faithful RootBank.Canonical := by
  refine ((header_faithful .rootBank [0]).pair (fixed_faithful.pair (fixed_faithful.pair
    (fixed_faithful.pair (u64_faithful.check.pair ((address_faithful.array _).pair
    (fixed_faithful.pair (fixed_faithful.pair (u64_faithful.before (blank_faithful 64)
    trivial))))))))).iso ?_ ?_
  · intro b hb
    exact ⟨by simpa [RootBank.Canonical] using hb, rfl⟩
  · intro fields h
    simpa [RootBank.Canonical] using h

theorem LiquidityMiningInfo.codec_faithful : LiquidityMiningInfo.codec.Faithful fun _ => True :=
  (fixed_faithful.pair (fixed_faithful.pair (u64_faithful.pair (u64_faithful.pair
    (u64_faithful.pair u64_faithful))))).iso
    (fun _ _ => ⟨by simp, rfl⟩) fun _ _ => trivial

def PerpMarket.Canonical (m : PerpMarket) : Prop := m.version = 0

theorem PerpMarket.codec_faithful : PerpMarket.codec.Faithful PerpMarket.Canonical := by
  refine ((header_faithful .perpMarket [0]).pair (address_faithful.pair (address_faithful.pair
    (address_faithful.pair (address_faithful.pair (i64_faithful.pair (i64_faithful.pair
    (fixed_faithful.pair (fixed_faithful.pair (i64_faithful.pair (u64_faithful.pair
    (u64_faithful.pair (fixed_faithful.pair (LiquidityMiningInfo.codec_faithful.pair
    address_faithful)))))))))))))).iso ?_ ?_
  · intro m hm
    exact ⟨by simpa [PerpMarket.Canonical] using hm, rfl⟩
  · intro fields h
    simpa [PerpMarket.Canonical] using h

theorem Dex.flags_faithful (required : UInt64) :
    (Dex.flags required).Faithful fun flags => flags.contains required = true := by
  have hword : (u64.iso AccountFlags.mk AccountFlags.bits).Faithful fun _ => True :=
    u64_faithful.iso (fun _ _ => ⟨trivial, rfl⟩) fun _ _ => trivial
  refine (hword.after (marker_faithful _ _) trivial).check.mono ?_
  simp

def SpotMarket.Canonical (m : SpotMarket) : Prop :=
  m.accountFlags.contains (AccountFlags.initialized ||| AccountFlags.market) = true

theorem SpotMarket.codec_faithful : SpotMarket.codec.Faithful SpotMarket.Canonical := by
  refine ((Dex.flags_faithful _).pair (address_faithful.pair (u64_faithful.pair
    (address_faithful.pair (address_faithful.pair (address_faithful.pair (u64_faithful.pair
    (u64_faithful.pair (address_faithful.pair (u64_faithful.pair (u64_faithful.pair
    (u64_faithful.pair (address_faithful.pair (address_faithful.pair (address_faithful.pair
    (address_faithful.pair (u64_faithful.pair (u64_faithful.pair (u64_faithful.pair
    (u64_faithful.before (marker_faithful _ _) trivial)))))))))))))))))))).iso ?_ ?_
  · intro m hm
    exact ⟨by simpa [SpotMarket.Canonical] using hm, rfl⟩
  · intro fields h
    simpa [SpotMarket.Canonical] using h

structure OpenOrders.Canonical (o : OpenOrders) : Prop where
  flags : o.accountFlags.contains (AccountFlags.initialized ||| AccountFlags.openOrders) = true
  base : o.baseTokenFree ≤ o.baseTokenTotal
  quote : o.quoteTokenFree ≤ o.quoteTokenTotal
  orders : SpotOrder.Canonical o.orders

theorem OpenOrders.codec_faithful : OpenOrders.codec.Faithful OpenOrders.Canonical := by
  have hbalances := u64_faithful.pair (u64_faithful.pair (u64_faithful.pair u64_faithful))
  refine ((Dex.flags_faithful _).pair (address_faithful.pair (address_faithful.pair
    (hbalances.check.pair (SpotOrder.codec_faithful.pair (u64_faithful.before (marker_faithful _ _)
    trivial)))))).iso ?_ ?_
  · rintro o ⟨hflags, hbase, hquote, horders⟩
    exact ⟨by simp [hflags, hbase, hquote, horders], rfl⟩
  · rintro ⟨flags, market, owner, ⟨baseFree, baseTotal, quoteFree, quoteTotal⟩, orders, rebates⟩
      ⟨hflags, _, _, ⟨_, hbalances⟩, horders, _⟩
    obtain ⟨hbase, hquote⟩ : baseFree ≤ baseTotal ∧ quoteFree ≤ quoteTotal := by
      simpa using hbalances
    exact ⟨hflags, hbase, hquote, horders⟩

theorem PriceStatus.codec_faithful : PriceStatus.codec.Faithful fun _ => True :=
  u32_faithful.refine (fun status _ => ⟨trivial, fun _ => by cases status <;> rfl⟩)
    fun _ _ _ _ _ => trivial

theorem PriceInfo.codec_faithful : PriceInfo.codec.Faithful fun _ => True :=
  (i64_faithful.pair (u64_faithful.pair (PriceStatus.codec_faithful.pair
    (u32_faithful.pair u64_faithful)))).iso
    (fun _ _ => ⟨by simp, rfl⟩) fun _ _ => trivial

namespace PriceComponent

theorem codec_faithful : PriceComponent.codec.Faithful fun _ => True :=
  (address_faithful.pair (PriceInfo.codec_faithful.pair PriceInfo.codec_faithful)).iso
    (fun _ _ => ⟨by simp, rfl⟩) fun _ _ => trivial

theorem length_writeSlots (components : List PriceComponent) :
    (writeSlots components).length = componentSlots * PriceComponent.codec.size := by
  have hkept : (components.take componentSlots).length ≤ componentSlots :=
    List.length_take_le _ _
  simp only [writeSlots, List.length_append, codec_faithful.length_flatMap_write,
    List.length_replicate]
  rw [← Nat.add_mul, Nat.add_sub_cancel' hkept]

theorem readSlots_append {components : List PriceComponent}
    (h : components.length ≤ componentSlots) (kind : AccountKind) (offset : Nat) (rest : Bytes) :
    (readSlots components.length).runFrom ⟨kind, offset, writeSlots components ++ rest⟩ =
      (.ok components, ⟨kind, offset + componentSlots * PriceComponent.codec.size, rest⟩) := by
  let unused := (componentSlots - components.length) * PriceComponent.codec.size
  obtain ⟨values, hvalues, hread⟩ := codec_faithful.readMany_list (n := components.length) rfl
    (fun _ _ => trivial) kind offset (List.replicate unused 0 ++ rest)
  have hblank : (blank unused).read.runFrom ⟨kind,
      offset + components.length * PriceComponent.codec.size, List.replicate unused 0 ++ rest⟩ =
      (.ok (), ⟨kind, offset + components.length * PriceComponent.codec.size + unused, rest⟩) :=
    (blank_faithful unused).read_write () trivial kind _ rest
  rw [readSlots, writeSlots, List.take_of_length_le h, List.append_assoc,
    Reader.runFrom_bind_of_ok hread, Reader.runFrom_bind_of_ok hblank, Reader.runFrom_pure, hvalues,
    Nat.add_assoc, ← Nat.add_mul, Nat.add_sub_cancel' h]

theorem length_of_readSlots {num : Nat} {cursor cursor' : Cursor}
    {components : List PriceComponent}
    (h : (readSlots num).runFrom cursor = (.ok components, cursor')) :
    components.length = num := by
  obtain ⟨values, mid, _, h⟩ := Reader.runFrom_bind_ok h
  obtain ⟨_, mid', _, h⟩ := Reader.runFrom_bind_ok h
  obtain ⟨rfl, _⟩ : values.toList = components ∧ mid' = cursor' := by simpa using h
  exact values.length_toList

end PriceComponent

def OraclePrice.Canonical (o : OraclePrice) : Prop := o.components.length ≤ componentSlots

namespace OraclePrice

theorem preamble_faithful : preamble.Faithful fun _ => True := by
  refine (u32_faithful.check.pair (u32_faithful.check.pair (u32_faithful.check.pair
    (u32_faithful.pair (u32_faithful.pair i32_faithful))))).iso ?_ fun _ _ => trivial
  rintro ⟨size, priceType, exponent⟩ _
  simp

theorem componentCount_faithful :
    componentCount.Faithful fun count => count.toNat ≤ componentSlots := by
  refine (u32_faithful.check.before (blank_faithful 4) trivial).mono fun count => ?_
  simp

theorem body_faithful : body.Faithful fun _ => True := by
  refine (u64_faithful.pair (u64_faithful.pair ((i64_faithful.array 8).pair
    (address_faithful.pair (address_faithful.pair
    (address_faithful.pair PriceInfo.codec_faithful)))))).mono fun fields => ?_
  simp

theorem codec_faithful : OraclePrice.codec.Faithful OraclePrice.Canonical := by
  have hdetails : (counted componentCount
      (body.size + componentSlots * PriceComponent.codec.size)
      (fun num => return (← body.read, ← PriceComponent.readSlots num.toNat))
      (fun details => body.write details.1 ++ PriceComponent.writeSlots details.2)
      (fun details => UInt32.ofNat (min details.2.length componentSlots))).Faithful
      fun details => details.2.length ≤ componentSlots := by
    refine componentCount_faithful.counted ?_ ?_ ?_
    · rintro ⟨fields, components⟩
      simp [body_faithful.length_write, PriceComponent.length_writeSlots]
    · rintro ⟨fields, components⟩ hlen
      have hcount : (UInt32.ofNat (min components.length componentSlots)).toNat =
          components.length := by
        have hsmall : components.length < 2 ^ 32 := Nat.lt_of_le_of_lt hlen (by decide)
        rw [UInt32.toNat_ofNat', Nat.min_eq_left hlen, Nat.mod_eq_of_lt hsmall]
      refine ⟨hcount.trans_le hlen, fun kind offset rest => ?_⟩
      simp only [hcount, List.append_assoc]
      rw [Reader.runFrom_bind_of_ok (body_faithful.read_write fields trivial kind offset _),
        Reader.runFrom_bind_of_ok (PriceComponent.readSlots_append hlen kind _ rest),
        Reader.runFrom_pure, Nat.add_assoc]
    · rintro num hnum cursor ⟨fields, components⟩ cursor' h
      obtain ⟨fields', mid, _, h⟩ := Reader.runFrom_bind_ok h
      obtain ⟨components', mid', hread, h⟩ := Reader.runFrom_bind_ok h
      obtain ⟨⟨_, rfl⟩, _⟩ : (fields' = fields ∧ components' = components) ∧ mid' = cursor' := by
        simpa using h
      exact (PriceComponent.length_of_readSlots hread).trans_le hnum
  refine (preamble_faithful.pair hdetails).iso ?_ ?_
  · intro o ho
    exact ⟨⟨trivial, ho⟩, rfl⟩
  · rintro ⟨_, _, _⟩ ⟨_, h⟩
    exact h

end OraclePrice

end Solvency
