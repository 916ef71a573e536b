import ClusteringKeys.Text.Hex

namespace ClusteringKeys

/-- Serialized data as stored in keys. The standard order of lists is the order of such data as unsigned bytes:
    the first difference decides, and a proper beginning comes before what it begins. -/
abbrev Bytes := List UInt8

namespace Bytes

/-- Two lower-case hexadecimal digits per byte, the high half first. -/
def hex (b : Bytes) : List Char :=
  b.flatMap fun x => [Nat.digitChar (x.toNat / 16), Nat.digitChar (x.toNat % 16)]

/-- Reads back what `hex` writes. -/
def ofHex? : List Char → Option Bytes
  | [] => some []
  | [_] => none
  | high :: low :: rest => do
    let high ← Text.hexValue? high
    let low ← Text.hexValue? low
    return UInt8.ofNat (16 * high + low) :: (← ofHex? rest)

def isAscii (b : Bytes) : Bool :=
  b.all (· < 0x80)

end Bytes

end ClusteringKeys
