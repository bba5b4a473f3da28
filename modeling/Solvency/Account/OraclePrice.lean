import Solvency.Bytes.Codec

/-! An oracle's price account: an aggregate price and the components it was made from. -/

namespace Solvency

abbrev componentSlots : Nat := 32

inductive PriceStatus where
  | unknown
  | trading
  | halted
  | auction
deriving DecidableEq, Inhabited

def PriceStatus.code : PriceStatus → UInt32
  | unknown => 0
  | trading => 1
  | halted => 2
  | auction => 3

def PriceStatus.ofCode? : UInt32 → Option PriceStatus
  | 0 => some unknown
  | 1 => some trading
  | 2 => some halted
  | 3 => some auction
  | _ => none

structure PriceInfo where
  price : Int64
  conf : UInt64
  status : PriceStatus
  corpAct : UInt32
  pubSlot : UInt64
deriving DecidableEq, Inhabited

structure PriceComponent where
  publisher : Address
  aggregate : PriceInfo
  latest : PriceInfo
deriving DecidableEq, Inhabited

structure OraclePrice where
  size : UInt32 := 3312
  priceType : UInt32 := 1
  exponent : Int32 := 0
  currSlot : UInt64 := 0
  validSlot : UInt64 := 0
  derivations : Vector Int64 8 := default
  product : Address := default
  next : Address := default
  aggregatePublisher : Address := default
  aggregate : PriceInfo := default
  components : List PriceComponent := []
deriving DecidableEq

instance : Inhabited OraclePrice := ⟨{}⟩

open Codec

def PriceStatus.codec : Codec PriceStatus :=
  u32.refine
    (fun _ code => match ofCode? code with
      | some status => .ok status
      | none => .error (.priceStatus code))
    code

def PriceInfo.codec : Codec PriceInfo :=
  (i64.pair <| u64.pair <| PriceStatus.codec.pair <| u32.pair u64).iso
    (fun (price, conf, status, corpAct, pubSlot) => ⟨price, conf, status, corpAct, pubSlot⟩)
    (fun p => (p.price, p.conf, p.status, p.corpAct, p.pubSlot))

namespace PriceComponent

def codec : Codec PriceComponent :=
  (address.pair <| PriceInfo.codec.pair PriceInfo.codec).iso
    (fun (publisher, aggregate, latest) => ⟨publisher, aggregate, latest⟩)
    (fun c => (c.publisher, c.aggregate, c.latest))

/-- Reads the first `num` of the component slots and passes over the others. -/
def readSlots (num : Nat) : Reader (List PriceComponent) := do
  let components ← readMany codec.read num
  (blank ((componentSlots - num) * codec.size)).read
  return components.toList

/-- Components beyond the last slot are left out, and unused slots are zero. -/
def writeSlots (components : List PriceComponent) : Bytes :=
  let kept := components.take componentSlots
  kept.flatMap codec.write ++ List.replicate ((componentSlots - kept.length) * codec.size) 0

end PriceComponent

namespace OraclePrice

def magic : UInt32 := 0xA1B2C3D4

def layoutVersion : UInt32 := 2

def accountType : UInt32 := 3

/-- Magic number, layout version, account type, size, price type and exponent. -/
def preamble : Codec (UInt32 × UInt32 × Int32) :=
  ((u32.check (· == magic) .priceMagic).pair <|
      (u32.check (· == layoutVersion) .priceVersion).pair <|
      (u32.check (· == accountType) .priceAccountType).pair <| u32.pair <| u32.pair i32).iso
    (fun (_, _, _, size, priceType, exponent) => (size, priceType, exponent))
    (fun (size, priceType, exponent) =>
      (magic, layoutVersion, accountType, size, priceType, exponent))

def componentCount : Codec UInt32 :=
  (u32.check (·.toNat ≤ componentSlots) (.componentCount · componentSlots)).before (blank 4)

def body : Codec (UInt64 × UInt64 × Vector Int64 8 × Address × Address × Address × PriceInfo) :=
  u64.pair <| u64.pair <| (array 8 i64).pair <| address.pair <| address.pair <|
    address.pair PriceInfo.codec

def codec : Codec OraclePrice :=
  let details := counted componentCount (body.size + componentSlots * PriceComponent.codec.size)
    (fun num => return (← body.read, ← PriceComponent.readSlots num.toNat))
    (fun (body', components) => body.write body' ++ PriceComponent.writeSlots components)
    (fun (_, components) => UInt32.ofNat (min components.length componentSlots))
  (preamble.pair details).iso
    (fun ((size, priceType, exponent), (currSlot, validSlot, derivations, product, next,
        aggregatePublisher, aggregate), components) =>
      ⟨size, priceType, exponent, currSlot, validSlot, derivations, product, next,
        aggregatePublisher, aggregate, components⟩)
    (fun o => ((o.size, o.priceType, o.exponent), (o.currSlot, o.validSlot, o.derivations,
      o.product, o.next, o.aggregatePublisher, o.aggregate), o.components))

def isTrading (o : OraclePrice) : Bool := o.aggregate.status == .trading

/-- The price in quote units for one whole base token. The power of ten is held in the same
range as the price, so exponents beyond it give none. -/
def uiPrice? (o : OraclePrice) : Option Fixed := do
  let mantissa ← Fixed.ofInt? o.aggregate.price.toInt
  let factor ← Fixed.pow10? o.exponent.toInt.natAbs
  if 0 ≤ o.exponent.toInt then mantissa.mul? factor else mantissa.div? factor

end OraclePrice

end Solvency
