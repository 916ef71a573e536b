import ClusteringKeys.Bytes.Word

namespace ClusteringKeys

structure Uuid where
  bytes : Bytes
  length_eq : bytes.length = 16
  deriving DecidableEq

namespace Uuid

def ofBytes? (b : Bytes) : Option Uuid :=
  if h : b.length = 16 then some ⟨b, h⟩ else none

/-- How the identifier was made: the upper half of byte 6. -/
def version (u : Uuid) : Nat :=
  (u.bytes.getD 6 0).toNat / 0x10

/-- The sixty bits of the time of creation. They are stored with their low 32 bits first, then the middle 16, then
    the high 12, which share their two bytes with the version. -/
def timestamp (u : Uuid) : Nat :=
  let low := Bytes.toNat (u.bytes.take 4)
  let middle := Bytes.toNat ((u.bytes.drop 4).take 2)
  let high := Bytes.toNat ((u.bytes.drop 6).take 2) % 0x1000
  (high * 0x10000 + middle) * 0x100000000 + low

def origin (u : Uuid) : Bytes :=
  u.bytes.drop 8

/-- The order of identifiers of any version: by version, those made from the time by it, then by bytes. -/
def compare (left right : Uuid) : Ordering :=
  (Ord.compare left.version right.version).then <|
    (if left.version = 1 then Ord.compare left.timestamp right.timestamp else .eq).then <|
      Ord.compare left.bytes right.bytes

/-- The order of time-based identifiers: by time, then by origin as signed bytes, then by bytes. -/
def compareByTime (left right : Uuid) : Ordering :=
  (Ord.compare left.timestamp right.timestamp).then <|
    (Ord.compare (left.origin.map fun x => x.toInt8.toInt) (right.origin.map fun x => x.toInt8.toInt)).then <|
      Ord.compare left.bytes right.bytes

def text (u : Uuid) : List Char :=
  let group := fun (start length : Nat) => Bytes.hex ((u.bytes.drop start).take length)
  ['-'].intercalate [group 0 4, group 4 2, group 6 2, group 8 2, group 10 6]

end Uuid

end ClusteringKeys
