import ClusteringKeys.Proofs.Except
import ClusteringKeys.Proofs.Sorting
import ClusteringKeys.Schema.Check
import Mathlib

namespace ClusteringKeys

namespace Schema

/-- Positions are accepted if in ascending order each of them is its own place. -/
theorem checkPositions_eq_ok_iff {kind : KeyKind} {positions : List UInt64} :
    checkPositions kind positions = .ok () ↔
      ∀ (i : Nat) (p : UInt64), (stableSort compare positions)[i]? = some p → p.toNat = i := by
  rw [checkPositions]
  constructor
  · intro h i p hp
    split at h
    next => cases h
    next hnone =>
      have hplace := List.find?_eq_none.mp hnone (p, i) (List.mk_mem_zipIdx_iff_getElem?.mpr hp)
      simpa using hplace
  · intro h
    split
    next p i hfound =>
      have hplace : p.toNat ≠ i := by simpa using List.find?_some hfound
      have hentry := List.mk_mem_zipIdx_iff_getElem?.mp (List.mem_of_find?_eq_some hfound)
      exact absurd (h i p hentry) hplace
    next => rfl

theorem checkType_eq_ok_iff {kind : KeyKind} {name typeName : String} :
    checkType kind name typeName = .ok () ↔ ∃ type, KeyType.ofName typeName = .ok type := by
  rw [checkType, bind_eq_ok_iff]
  exact exists_congr fun type => (and_iff_left rfl).trans mapError_eq_ok_iff

/-- The first column that the table lists under the name has the type that is meant. Type names that cannot be read
    all mean the same. -/
def Lists (s : Schema) (name typeName : String) : Prop :=
  ∃ column, s.columns.find? (fun column => column.name = name) = some column ∧
    (KeyType.ofName column.typeName).toOption = (KeyType.ofName typeName).toOption

theorem checkListed_eq_ok_iff {s : Schema} {kind : KeyKind} {name typeName : String} :
    s.checkListed kind name typeName = .ok () ↔ s.Lists name typeName := by
  rw [checkListed, Lists]
  cases s.columns.find? fun column => column.name = name with
  | none => simp
  | some column => simp

/-- What the check of a schema makes sure of. -/
@[mk_iff wellFormed_iff_forall]
structure WellFormed (s : Schema) : Prop where
  keyspace : s.keyspace ≠ ""
  table : s.table ≠ ""
  partitionKeys : s.partitionKeys ≠ []
  partitionPositions : checkPositions .partition (s.partitionKeys.map PartitionKey.position) = .ok ()
  clusteringPositions : checkPositions .clustering (s.clusteringKeys.map ClusteringKey.position) = .ok ()
  partitionTypes : ∀ key ∈ s.partitionKeys, ∃ type, KeyType.ofName key.typeName = .ok type
  clusteringTypes : ∀ key ∈ s.clusteringKeys, ∃ type, KeyType.ofName key.typeName = .ok type
  directions : ∀ key ∈ s.clusteringKeys, ∃ direction, Direction.ofName key.order = .ok direction
  partitionListed : s.columns ≠ [] → ∀ key ∈ s.partitionKeys, s.Lists key.name key.typeName
  clusteringListed : s.columns ≠ [] → ∀ key ∈ s.clusteringKeys, s.Lists key.name key.typeName

theorem check_eq_ok_iff {s : Schema} : s.check = .ok () ↔ s.WellFormed := by
  rw [check, throw_or_eq_ok_iff, throw_or_eq_ok_iff, throw_or_eq_ok_iff]
  simp only [bind_eq_ok_iff, forM_eq_ok_iff, unless_eq_ok_iff, checkType_eq_ok_iff, checkListed_eq_ok_iff,
    String.isEmpty_iff, List.isEmpty_iff, Unique.exists_iff, PUnit.default_eq_unit]
  constructor
  · rintro ⟨hkeyspace, htable, hkeys, hpartition, hclustering, htypes, hclusteringKeys, hlisted⟩
    exact {
      keyspace := hkeyspace
      table := htable
      partitionKeys := hkeys
      partitionPositions := hpartition
      clusteringPositions := hclustering
      partitionTypes := htypes
      clusteringTypes := fun key hkey => (hclusteringKeys key hkey).1
      directions := fun key hkey => (hclusteringKeys key hkey).2.imp fun _ h => h.1
      partitionListed := fun h => (hlisted h).1
      clusteringListed := fun h => (hlisted h).2 }
  · intro h
    refine ⟨h.keyspace, h.table, h.partitionKeys, h.partitionPositions, h.clusteringPositions, h.partitionTypes, ?_,
      fun hcolumns => ⟨h.partitionListed hcolumns, h.clusteringListed hcolumns⟩⟩
    intro key hkey
    exact ⟨h.clusteringTypes key hkey, (h.directions key hkey).imp fun _ hd => ⟨hd, rfl⟩⟩

end Schema

end ClusteringKeys
