import Solvency.Account.MarginAccount
import Solvency.Account.RootBank
import Solvency.Account.PerpMarket
import Solvency.Account.SpotMarket
import Solvency.Account.OpenOrders
import Solvency.Account.OraclePrice

/-! A decoded account of any kind. The tag beside a payload chooses the layout. -/

namespace Solvency

inductive Entity where
  | group : Group → Entity
  | marginAccount : MarginAccount → Entity
  | rootBank : RootBank → Entity
  | perpMarket : PerpMarket → Entity
  | openOrders : OpenOrders → Entity
  | spotMarket : SpotMarket → Entity
  | oraclePrice : OraclePrice → Entity
deriving DecidableEq

namespace Entity

def kind : Entity → AccountKind
  | group _ => .group
  | marginAccount _ => .marginAccount
  | rootBank _ => .rootBank
  | perpMarket _ => .perpMarket
  | openOrders _ => .openOrders
  | spotMarket _ => .spotMarket
  | oraclePrice _ => .oraclePrice

def tag (e : Entity) : UInt8 := e.kind.tag

def group? : Entity → Option Group
  | group value => some value
  | _ => none

def marginAccount? : Entity → Option MarginAccount
  | marginAccount value => some value
  | _ => none

def rootBank? : Entity → Option RootBank
  | rootBank value => some value
  | _ => none

def perpMarket? : Entity → Option PerpMarket
  | perpMarket value => some value
  | _ => none

def openOrders? : Entity → Option OpenOrders
  | openOrders value => some value
  | _ => none

def spotMarket? : Entity → Option SpotMarket
  | spotMarket value => some value
  | _ => none

def oraclePrice? : Entity → Option OraclePrice
  | oraclePrice value => some value
  | _ => none

def encode : Entity → Bytes
  | group value => Group.codec.write value
  | marginAccount value => MarginAccount.codec.write value
  | rootBank value => RootBank.codec.write value
  | perpMarket value => PerpMarket.codec.write value
  | openOrders value => OpenOrders.codec.write value
  | spotMarket value => SpotMarket.codec.write value
  | oraclePrice value => OraclePrice.codec.write value

def unpack (data : Bytes) : AccountKind → Except LayoutError Entity
  | .group => .group <$> Group.codec.unpack .group data
  | .marginAccount => .marginAccount <$> MarginAccount.codec.unpack .marginAccount data
  | .rootBank => .rootBank <$> RootBank.codec.unpack .rootBank data
  | .perpMarket => .perpMarket <$> PerpMarket.codec.unpack .perpMarket data
  | .openOrders => .openOrders <$> OpenOrders.codec.unpack .openOrders data
  | .spotMarket => .spotMarket <$> SpotMarket.codec.unpack .spotMarket data
  | .oraclePrice => .oraclePrice <$> OraclePrice.codec.unpack .oraclePrice data

def decode (tag : UInt8) (data : Bytes) : Except LayoutError Entity :=
  match AccountKind.ofTag? tag with
  | some kind => unpack data kind
  | none => .error (.unknownTag tag)

end Entity

end Solvency
