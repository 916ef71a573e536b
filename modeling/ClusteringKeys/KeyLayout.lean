import ClusteringKeys.Key.Basic
import ClusteringKeys.KeyType.Check
import ClusteringKeys.Schema.Check
import ClusteringKeys.Settings
import ClusteringKeys.Value.Encode

namespace ClusteringKeys

/-- The key columns of a table in order, and how their values are checked. Makes keys from values. -/
structure KeyLayout where
  partition : List Column
  clustering : List Column
  settings : KeySettings

namespace KeyLayout

/-- The layout of a table by its schema, once schema and settings are checked. -/
def ofSchema (schema : Schema) (settings : Settings) : Except Error KeyLayout := do
  schema.check.mapError .schema
  settings.check.mapError .settings
  return {
    partition := ← schema.partitionColumns.mapError .schema
    clustering := ← schema.clusteringColumns.mapError .schema
    settings := settings.keys }

def clusteringColumn? (layout : KeyLayout) (name : String) : Option Column :=
  layout.clustering.find? fun column => column.name = name

/-- Accepts the serialized values that the settings let into a column. -/
def checkValue (layout : KeyLayout) (column : Column) (value : Bytes) : Except ConversionFault Unit :=
  if !layout.settings.validateValues then .ok ()
  else if value.isEmpty && column.type.width?.isSome then
    if layout.settings.allowEmptyValues then .ok () else .error (.emptyValue column.type column.name)
  else (column.type.check value).mapError (.refusedBy column.name)

/-- The key of columns with serialized values, once each value is checked. -/
def build (layout : KeyLayout) (columns : List Column) (values : List Bytes) : Except Error Key := do
  (columns.zip values).forM fun (column, value) => (layout.checkValue column value).mapError .conversion
  (Key.ofColumns columns values).mapError .elements

def encodeAll (columns : List Column) (values : List Value) : Except ConversionFault (List Bytes) :=
  (columns.zip values).mapM fun (column, value) => value.encode column.type

def clusteringRange (layout : KeyLayout) (start : UInt64) (count : Nat) : Except ElementsFault (List Column) :=
  if start.toNat + count ≤ layout.clustering.length then
    .ok ((layout.clustering.drop start.toNat).take count)
  else .error (.beyondLastColumn count start layout.clustering.length)

/-- The key of the clustering columns from a position on. -/
def slice (layout : KeyLayout) (start : UInt64) (values : List Value) : Except Error Key := do
  let columns ← (layout.clusteringRange start values.length).mapError .elements
  layout.build columns (← (encodeAll columns values).mapError .conversion)

/-- The same from values that are serialized already. -/
def sliceSerialized (layout : KeyLayout) (start : UInt64) (values : List Bytes) : Except Error Key := do
  layout.build (← (layout.clusteringRange start values.length).mapError .elements) values

def leading (layout : KeyLayout) (values : List Value) : Except Error Key :=
  layout.slice 0 values

/-- The key of the first clustering columns, or a bound of its block. -/
def leadingBound (layout : KeyLayout) (values : List Value) (marker : Marker) : Except Error Key := do
  return { ← layout.leading values with marker }

def partitionKey (layout : KeyLayout) (values : List Value) : Except Error Key := do
  if values.length ≠ layout.partition.length then
    throw (.elements (.partitionKeySize layout.partition.length values.length))
  layout.build layout.partition (← (encodeAll layout.partition values).mapError .conversion)

end KeyLayout

end ClusteringKeys
