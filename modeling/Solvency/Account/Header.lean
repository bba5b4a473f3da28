import Solvency.Bytes.Codec

/-! The eight bytes in front of every protocol-owned account. -/

namespace Solvency

open Codec

/-- Data type, version, initialized flag and five blank bytes. Only the version varies. -/
def header (dataType : DataType) (versions : List UInt8) : Codec UInt8 :=
  let kind := u8.check (· == dataType.tag) (.dataType · dataType)
  let version := u8.check versions.contains .version
  let initialized := bool.check id fun _ => .notInitialized
  (kind.pair <| version.pair <| initialized.before (blank 5)).iso
    (fun (_, version, _) => version) (fun version => (dataType.tag, version, true))

end Solvency
