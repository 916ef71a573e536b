import ClusteringKeys.Column
import ClusteringKeys.KeyType.Name
import ClusteringKeys.Sorting

namespace ClusteringKeys

structure PartitionKey where
  name : String
  typeName : String
  position : UInt64
  deriving DecidableEq

structure ClusteringKey where
  name : String
  typeName : String
  position : UInt64
  order : String := "ASC"
  deriving DecidableEq

/-- A declared column of any kind. -/
structure ListedColumn where
  name : String
  typeName : String
  deriving DecidableEq

/-- The primary key of a table as declared: names, types and orders are texts, and positions order the columns. -/
structure Schema where
  keyspace : String
  table : String
  partitionKeys : List PartitionKey
  clusteringKeys : List ClusteringKey := []
  /-- All columns of the table, or none if only the key is described. -/
  columns : List ListedColumn := []
  deriving DecidableEq

namespace Schema

def isPartitionKey (s : Schema) (name : String) : Bool :=
  s.partitionKeys.any fun key => key.name = name

def isClusteringKey (s : Schema) (name : String) : Bool :=
  s.clusteringKeys.any fun key => key.name = name

def orderedPartitionKeys (s : Schema) : List PartitionKey :=
  stableSort (compareOn PartitionKey.position) s.partitionKeys

def orderedClusteringKeys (s : Schema) : List ClusteringKey :=
  stableSort (compareOn ClusteringKey.position) s.clusteringKeys

def partitionColumns (s : Schema) : Except SchemaFault (List Column) :=
  s.orderedPartitionKeys.mapM fun key => do
    return .ofPartition s.keyspace s.table key.name (← KeyType.ofName key.typeName) key.position

def clusteringColumns (s : Schema) : Except SchemaFault (List Column) :=
  s.orderedClusteringKeys.mapM fun key => do
    let type ← KeyType.ofName key.typeName
    return .ofClustering s.keyspace s.table key.name type (← Direction.ofName key.order) key.position

end Schema

end ClusteringKeys
