namespace ClusteringKeys

/-- The type of a key column. It decides how the column's values are serialized, ordered and shown. -/
inductive KeyType where
  | boolean
  | tinyint
  | smallint
  | int
  | bigint
  | float
  | double
  | text
  | ascii
  | blob
  | timestamp
  | date
  | time
  | uuid
  | timeuuid
  | inet
  /-- A type known by name only, whose values are plain bytes. -/
  | custom (name : String)
  deriving DecidableEq

namespace KeyType

def name : KeyType → String
  | boolean => "boolean"
  | tinyint => "tinyint"
  | smallint => "smallint"
  | int => "int"
  | bigint => "bigint"
  | float => "float"
  | double => "double"
  | text => "text"
  | ascii => "ascii"
  | blob => "blob"
  | timestamp => "timestamp"
  | date => "date"
  | time => "time"
  | uuid => "uuid"
  | timeuuid => "timeuuid"
  | inet => "inet"
  | custom name => name

instance : ToString KeyType := ⟨name⟩

def builtin : List KeyType :=
  [boolean, tinyint, smallint, int, bigint, float, double, text, ascii, blob, timestamp, date, time, uuid, timeuuid,
    inet]

/-- The bytes that each value takes, for types whose values all take the same. -/
def width? : KeyType → Option Nat
  | boolean | tinyint => some 1
  | smallint => some 2
  | int | float | date => some 4
  | bigint | double | timestamp | time => some 8
  | uuid | timeuuid => some 16
  | text | ascii | blob | inet | custom _ => none

/-- The place of a type among the types, all custom ones last. -/
def rank : KeyType → Nat
  | boolean => 0
  | tinyint => 1
  | smallint => 2
  | int => 3
  | bigint => 4
  | float => 5
  | double => 6
  | text => 7
  | ascii => 8
  | blob => 9
  | timestamp => 10
  | date => 11
  | time => 12
  | uuid => 13
  | timeuuid => 14
  | inet => 15
  | custom _ => 16

/-- An arbitrary but fixed order of the types themselves, in which only identical types compare equal. -/
instance : Ord KeyType := ⟨fun left right => (compare left.rank right.rank).then (compare left.name right.name)⟩

end KeyType

end ClusteringKeys
