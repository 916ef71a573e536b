import ClusteringKeys.Proofs.Column
import ClusteringKeys.Proofs.Schema.Check
import Mathlib

namespace ClusteringKeys

/-- The columns belong to one part of the key, and each stands at the place that its position tells. -/
def Column.InPlace (kind : KeyKind) (columns : List Column) : Prop :=
  ∀ (i : Nat) (column : Column), columns[i]? = some column → column.kind = kind ∧ column.position.toNat = i

theorem Column.InPlace.isChain {kind : KeyKind} {columns : List Column} (h : InPlace kind columns) :
    columns.IsChain fun c d => c.isFollowedBy d := by
  rw [List.isChain_iff_getElem]
  intro i hi
  obtain ⟨hkind, hposition⟩ := h i columns[i] (List.getElem?_eq_getElem _)
  obtain ⟨hkind', hposition'⟩ := h (i + 1) columns[i + 1] (List.getElem?_eq_getElem _)
  exact isFollowedBy_iff.mpr ⟨hkind.trans hkind'.symm, by rw [hposition, hposition']⟩

/-- Columns in place can be the columns of a key. -/
theorem Column.InPlace.ascends {kind : KeyKind} {columns : List Column} (h : InPlace kind columns) :
    columns.IsChain fun c d => c.kind = d.kind ∧ c.position < d.position := by
  refine h.isChain.imp fun c d hfollowed => ?_
  obtain ⟨hkind, hnext⟩ := isFollowedBy_iff.mp hfollowed
  exact ⟨hkind, UInt64.lt_iff_toNat_lt.mpr (by omega)⟩

namespace Schema

/-- Keys with accepted positions, taken in ascending order, become columns that stand in their places. -/
private theorem inPlace_of_mapM {κ : Type} {kind : KeyKind} {position : κ → UInt64}
    {resolve : κ → Except SchemaFault Column} {keys : List κ} {columns : List Column}
    (hresolve : ∀ key column, resolve key = .ok column → column.kind = kind ∧ column.position = position key)
    (hpositions : checkPositions kind (keys.map position) = .ok ())
    (hcolumns : (stableSort (compareOn position) keys).mapM resolve = .ok columns) :
    Column.InPlace kind columns := by
  have hforall := mapM_eq_ok_iff.mp hcolumns
  have hsorted : stableSort compare (keys.map position) = (stableSort (compareOn position) keys).map position :=
    stableSort_map (fun _ _ => rfl) keys
  rw [checkPositions_eq_ok_iff, hsorted] at hpositions
  intro i column hcolumn
  obtain ⟨hi, rfl⟩ := List.getElem?_eq_some_iff.mp hcolumn
  have hlength := hforall.length_eq
  have hi' : i < (stableSort (compareOn position) keys).length := hlength ▸ hi
  obtain ⟨hkind, hposition⟩ := hresolve _ _ (hforall.get hi' hi)
  refine ⟨hkind, hpositions i _ ?_⟩
  rw [List.getElem?_map, List.getElem?_eq_getElem hi', Option.map_some]
  exact congrArg some hposition.symm

theorem inPlace_partitionColumns {s : Schema} {columns : List Column} (hcheck : s.check = .ok ())
    (hcolumns : s.partitionColumns = .ok columns) : Column.InPlace .partition columns := by
  refine inPlace_of_mapM ?_ (check_eq_ok_iff.mp hcheck).partitionPositions hcolumns
  intro key column hresolve
  obtain ⟨type, _, hcolumn⟩ := bind_eq_ok_iff.mp hresolve
  rw [← Except.ok.inj hcolumn]
  exact ⟨rfl, rfl⟩

theorem inPlace_clusteringColumns {s : Schema} {columns : List Column} (hcheck : s.check = .ok ())
    (hcolumns : s.clusteringColumns = .ok columns) : Column.InPlace .clustering columns := by
  refine inPlace_of_mapM ?_ (check_eq_ok_iff.mp hcheck).clusteringPositions hcolumns
  intro key column hresolve
  obtain ⟨type, _, hresolve⟩ := bind_eq_ok_iff.mp hresolve
  obtain ⟨direction, _, hcolumn⟩ := bind_eq_ok_iff.mp hresolve
  rw [← Except.ok.inj hcolumn]
  exact ⟨rfl, rfl⟩

end Schema

end ClusteringKeys
