import Solvency.Account.Header

/-! A root bank: the interest indexes of one token. -/

namespace Solvency

abbrev nodeBankSlots : Nat := 8

structure RootBank where
  version : UInt8 := 0
  optimalUtil : Fixed := 0
  optimalRate : Fixed := 0
  maxRate : Fixed := 0
  numNodeBanks : UInt64 := 0
  nodeBanks : Vector Address nodeBankSlots := default
  /-- What a unit of deposit is worth in native tokens. -/
  depositIndex : Fixed := 1
  /-- What a unit of borrow is worth in native tokens. -/
  borrowIndex : Fixed := 1
  lastUpdated : UInt64 := 0
deriving DecidableEq

namespace RootBank

instance : Inhabited RootBank := ⟨{}⟩

open Codec

def codec : Codec RootBank :=
  let nodeBankCount := u64.check (· ≤ 8) (.nodeBankCount ·.toNat nodeBankSlots)
  ((header .rootBank [0]).pair <| fixed.pair <| fixed.pair <| fixed.pair <| nodeBankCount.pair <|
      (array nodeBankSlots address).pair <| fixed.pair <| fixed.pair <| u64.before (blank 64)).iso
    (fun (version, optimalUtil, optimalRate, maxRate, numNodeBanks, nodeBanks, depositIndex,
        borrowIndex, lastUpdated) =>
      ⟨version, optimalUtil, optimalRate, maxRate, numNodeBanks, nodeBanks, depositIndex,
        borrowIndex, lastUpdated⟩)
    (fun b => (b.version, b.optimalUtil, b.optimalRate, b.maxRate, b.numNodeBanks, b.nodeBanks,
      b.depositIndex, b.borrowIndex, b.lastUpdated))

def activeNodeBanks (b : RootBank) : List Address :=
  b.nodeBanks.toList.take b.numNodeBanks.toNat

end RootBank

end Solvency
