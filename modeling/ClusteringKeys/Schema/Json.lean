import ClusteringKeys.Document
import ClusteringKeys.Json.Standard
import ClusteringKeys.Schema.Check

namespace ClusteringKeys

open Json (Library)
open Json.Library (integer? ofRecord ofString ofInteger ofList record? required string? optional listOf? parse?)

variable [Library]

def position? (j : Json) : Option UInt64 := do
  return UInt64.ofNat (← integer? 0 (UInt64.size - 1) j).toNat

namespace PartitionKey

def toJson (key : PartitionKey) : Json :=
  ofRecord [("name", ofString key.name), ("type", ofString key.typeName),
    ("position", ofInteger key.position.toNat)]

def ofJson? (j : Json) : Option PartitionKey := do
  match ← record? ["name", "type", "position"] j with
  | [name, typeName, position] =>
    return {
      name := ← required string? name
      typeName := ← required string? typeName
      position := ← required position? position }
  | _ => none

end PartitionKey

namespace ClusteringKey

def toJson (key : ClusteringKey) : Json :=
  ofRecord [("name", ofString key.name), ("type", ofString key.typeName),
    ("position", ofInteger key.position.toNat), ("order", ofString key.order)]

/-- Reads a declaration. Without an order the column ascends. -/
def ofJson? (j : Json) : Option ClusteringKey := do
  match ← record? ["name", "type", "position", "order"] j with
  | [name, typeName, position, order] =>
    return {
      name := ← required string? name
      typeName := ← required string? typeName
      position := ← required position? position
      order := ← optional "ASC" string? order }
  | _ => none

end ClusteringKey

namespace ListedColumn

def toJson (column : ListedColumn) : Json :=
  ofRecord [("name", ofString column.name), ("type", ofString column.typeName)]

def ofJson? (j : Json) : Option ListedColumn := do
  match ← record? ["name", "type"] j with
  | [name, typeName] =>
    return {
      name := ← required string? name
      typeName := ← required string? typeName }
  | _ => none

end ListedColumn

namespace Schema

def toJson (s : Schema) : Json :=
  ofRecord [("keyspace", ofString s.keyspace), ("table", ofString s.table),
    ("partition_keys", ofList (s.partitionKeys.map PartitionKey.toJson)),
    ("clustering_keys", ofList (s.clusteringKeys.map ClusteringKey.toJson)),
    ("columns", ofList (s.columns.map ListedColumn.toJson))]

/-- Reads a schema. Clustering keys and the list of columns may be missing. -/
def ofJson? (j : Json) : Option Schema := do
  match ← record? ["keyspace", "table", "partition_keys", "clustering_keys", "columns"] j with
  | [keyspace, table, partitionKeys, clusteringKeys, columns] =>
    return {
      keyspace := ← required string? keyspace
      table := ← required string? table
      partitionKeys := ← required (listOf? PartitionKey.ofJson?) partitionKeys
      clusteringKeys := ← optional [] (listOf? ClusteringKey.ofJson?) clusteringKeys
      columns := ← optional [] (listOf? ListedColumn.ofJson?) columns }
  | _ => none

def read? (s : String) : Option Schema :=
  (parse? s).bind ofJson?

def ofText (s : String) : Except SchemaFault Schema :=
  match read? s with
  | none => .error .notSchema
  | some schema => do
    schema.check
    return schema

def ofDocument (d : Document) : Except SchemaFault Schema := do
  ofText (← d.text.mapError .unreadableFile)

end Schema

end ClusteringKeys
