import ClusteringKeys.Direction
import ClusteringKeys.KeyType.Order

namespace ClusteringKeys

structure Column where
  keyspace : String
  table : String
  name : String
  kind : KeyKind
  /-- The place among the columns of its kind, from zero. -/
  position : UInt64
  type : KeyType
  direction : Direction
  deriving DecidableEq

namespace Column

def ofPartition (keyspace table name : String) (type : KeyType) (position : UInt64) : Column :=
  { keyspace, table, name, kind := .partition, position, type, direction := .asc }

def ofClustering (keyspace table name : String) (type : KeyType) (direction : Direction) (position : UInt64) :
    Column :=
  { keyspace, table, name, kind := .clustering, position, type, direction }

instance : ToString Column := ⟨name⟩

/-- The order of two serialized values of the column among the keys. -/
def compareValues (column : Column) (left right : Bytes) : Ordering :=
  column.direction.apply (column.type.compare left right)

/-- The order of the columns themselves: by kind, then position. The rest makes only identical columns equal. -/
def compareIdentity (left right : Column) : Ordering :=
  (compare left.kind right.kind).then <|
    (compare left.position right.position).then <|
      (compare left.keyspace right.keyspace).then <|
        (compare left.table right.table).then <|
          (compare left.name right.name).then <|
            (compare left.type right.type).then <|
              compare left.direction right.direction

/-- The next column comes right after this one in the same kind of key. The position is counted up without wrapping
    around, so that no column comes after the last possible position. -/
def isFollowedBy (column next : Column) : Bool :=
  column.kind = next.kind && column.position.toNat + 1 = next.position.toNat

end Column

end ClusteringKeys
