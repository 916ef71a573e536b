import ClusteringKeys.Proofs.KeyLayout
import ClusteringKeys.Proofs.Schema.Check
import Mathlib

namespace ClusteringKeys

namespace Schema

/-- The column has the name and the position of the key, and the type that its type name means. -/
def DeclaresPartition (s : Schema) (key : PartitionKey) (column : Column) : Prop :=
  ∃ type, KeyType.ofName key.typeName = .ok type ∧
    .ofPartition s.keyspace s.table key.name type key.position = column

/-- The column has the name and the position of the key, and the type and the direction that its texts mean. -/
def DeclaresClustering (s : Schema) (key : ClusteringKey) (column : Column) : Prop :=
  ∃ type, KeyType.ofName key.typeName = .ok type ∧ ∃ direction, Direction.ofName key.order = .ok direction ∧
    .ofClustering s.keyspace s.table key.name type direction key.position = column

theorem orderedPartitionKeys_perm (s : Schema) : s.orderedPartitionKeys.Perm s.partitionKeys :=
  stableSort_perm _ _

theorem orderedClusteringKeys_perm (s : Schema) : s.orderedClusteringKeys.Perm s.clusteringKeys :=
  stableSort_perm _ _

theorem partitionColumns_eq_ok_iff {s : Schema} {columns : List Column} :
    s.partitionColumns = .ok columns ↔ List.Forall₂ s.DeclaresPartition s.orderedPartitionKeys columns := by
  simp only [partitionColumns, mapM_eq_ok_iff, bind_pure_eq_ok_iff]
  rfl

theorem clusteringColumns_eq_ok_iff {s : Schema} {columns : List Column} :
    s.clusteringColumns = .ok columns ↔ List.Forall₂ s.DeclaresClustering s.orderedClusteringKeys columns := by
  simp only [clusteringColumns, mapM_eq_ok_iff, bind_eq_ok_iff, pure, Except.pure, Except.ok.injEq]
  rfl

namespace WellFormed

variable {s : Schema}

end WellFormed

/-- The same schema with its keys declared in another order. -/
structure Reorders (s t : Schema) : Prop where
  keyspace : t.keyspace = s.keyspace
  table : t.table = s.table
  partitionKeys : t.partitionKeys.Perm s.partitionKeys
  clusteringKeys : t.clusteringKeys.Perm s.clusteringKeys
  columns : t.columns = s.columns

namespace Reorders

variable {s t : Schema}

theorem symm (h : Reorders s t) : Reorders t s :=
  ⟨h.keyspace.symm, h.table.symm, h.partitionKeys.symm, h.clusteringKeys.symm, h.columns.symm⟩

end Reorders

end Schema

end ClusteringKeys
