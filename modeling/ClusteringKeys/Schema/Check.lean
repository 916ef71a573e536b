import ClusteringKeys.Schema.Basic

namespace ClusteringKeys.Schema

/-- The positions are those from zero on, each once, in any order. -/
def checkPositions (kind : KeyKind) (positions : List UInt64) : Except SchemaFault Unit :=
  match (stableSort compare positions).zipIdx.find? fun (position, place) => position.toNat ≠ place with
  | some (_, place) => .error (.positionGap kind place)
  | none => .ok ()

def checkType (kind : KeyKind) (name typeName : String) : Except SchemaFault Unit := do
  let _ ← (KeyType.ofName typeName).mapError (.badType kind typeName name)

/-- The table lists a key column under the type that the key declares. -/
def checkListed (s : Schema) (kind : KeyKind) (name typeName : String) : Except SchemaFault Unit :=
  match s.columns.find? fun column => column.name = name with
  | none => .error (.unlistedColumn kind name)
  | some column =>
    if (KeyType.ofName column.typeName).toOption = (KeyType.ofName typeName).toOption then .ok ()
    else .error (.conflictingTypes kind name typeName column.typeName)

/-- Accepts the schemas whose key columns can be resolved. The first fault in this order is reported. -/
def check (s : Schema) : Except SchemaFault Unit := do
  if s.keyspace.isEmpty then throw .emptyKeyspace
  if s.table.isEmpty then throw .emptyTable
  if s.partitionKeys.isEmpty then throw .noPartitionKey
  checkPositions .partition (s.partitionKeys.map PartitionKey.position)
  checkPositions .clustering (s.clusteringKeys.map ClusteringKey.position)
  s.partitionKeys.forM fun key => checkType .partition key.name key.typeName
  s.clusteringKeys.forM fun key => do
    checkType .clustering key.name key.typeName
    let _ ← Direction.ofName key.order
  unless s.columns.isEmpty do
    s.partitionKeys.forM fun key => s.checkListed .partition key.name key.typeName
    s.clusteringKeys.forM fun key => s.checkListed .clustering key.name key.typeName

end ClusteringKeys.Schema
