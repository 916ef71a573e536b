import ClusteringKeys.Proofs.KeyLayout
import Mathlib

namespace ClusteringKeys

namespace KeyLayout

variable {layout : KeyLayout} {start : UInt64}

private theorem run_ascends (hplaced : Column.InPlace .clustering layout.clustering) (start count : Nat) :
    ((layout.clustering.drop start).take count).IsChain fun c d => c.kind = d.kind ∧ c.position < d.position :=
  (hplaced.ascends.drop start).take count

theorem exists_build_iff {columns : List Column} {values : List Bytes}
    (hascend : columns.IsChain fun c d => c.kind = d.kind ∧ c.position < d.position) :
    (∃ k, layout.build columns values = .ok k) ↔ List.Forall₂ layout.settings.Admits columns values := by
  simp only [build_eq_ok_iff]
  constructor
  · rintro ⟨_, hadmits, _⟩
    exact hadmits
  · intro hadmits
    obtain ⟨k, hk⟩ := Key.exists_ofColumns_iff.mpr ⟨hadmits.length_eq, hascend⟩
    obtain ⟨_, _, hkey⟩ := Key.ofColumns_eq_ok_iff.mp hk
    exact ⟨k, hadmits, hascend, hkey⟩

theorem exists_sliceSerialized_iff (hplaced : Column.InPlace .clustering layout.clustering) {values : List Bytes} :
    (∃ k, layout.sliceSerialized start values = .ok k) ↔
      start.toNat + values.length ≤ layout.clustering.length ∧
        List.Forall₂ layout.settings.Admits ((layout.clustering.drop start.toNat).take values.length) values := by
  simp only [sliceSerialized_eq_ok_iff, exists_and_left]
  rw [exists_build_iff (run_ascends hplaced _ _)]

theorem exists_slice_iff (hplaced : Column.InPlace .clustering layout.clustering) {values : List Value} :
    (∃ k, layout.slice start values = .ok k) ↔
      start.toNat + values.length ≤ layout.clustering.length ∧
        ∃ bytes, StoredIn ((layout.clustering.drop start.toNat).take values.length) values bytes ∧
          List.Forall₂ layout.settings.Admits ((layout.clustering.drop start.toNat).take values.length) bytes := by
  simp only [slice_eq_ok_iff]
  constructor
  · rintro ⟨k, bytes, hstored, hk⟩
    obtain ⟨hfits, hadmits⟩ := (exists_sliceSerialized_iff hplaced).mp ⟨k, hk⟩
    rw [hstored.length_bytes] at hfits hadmits
    exact ⟨hfits, bytes, hstored, hadmits⟩
  · rintro ⟨hfits, bytes, hstored, hadmits⟩
    rw [← hstored.length_bytes] at hfits hadmits
    obtain ⟨k, hk⟩ := (exists_sliceSerialized_iff hplaced).mpr ⟨hfits, hadmits⟩
    exact ⟨k, bytes, hstored, hk⟩

theorem exists_partitionKey_iff (hplaced : Column.InPlace .partition layout.partition) {values : List Value} :
    (∃ k, layout.partitionKey values = .ok k) ↔
      ∃ bytes, StoredIn layout.partition values bytes ∧
        List.Forall₂ layout.settings.Admits layout.partition bytes := by
  simp only [partitionKey_eq_ok_iff]
  rw [exists_comm]
  simp only [exists_and_left, exists_build_iff hplaced.ascends]

private theorem encodeAll_build_ne_elements {columns : List Column} {values : List Value}
    (hlength : columns.length = values.length)
    (hascend : columns.IsChain fun c d => c.kind = d.kind ∧ c.position < d.position) (fault : ElementsFault) :
    (encodeAll columns values).mapError Error.conversion >>= layout.build columns ≠ .error (.elements fault) := by
  intro h
  rcases bind_eq_error_iff.mp h with hencode | ⟨bytes, hencode, hbuild⟩
  · obtain ⟨_, _, hfault⟩ := mapError_eq_error_iff.mp hencode
    cases hfault
  · have hstored := (encodeAll_eq_ok_iff hlength).mp (mapError_eq_ok_iff.mp hencode)
    exact build_ne_elements (hlength.trans hstored.length_bytes.symm) hascend fault hbuild

/-- If what is made of a range of columns never fails for their sake, only a range past the last column does. -/
private theorem clusteringRange_bind_eq_elements_error_iff {count : Nat} {make : List Column → Except Error Key}
    {fault : ElementsFault}
    (hmake : start.toNat + count ≤ layout.clustering.length →
      make ((layout.clustering.drop start.toNat).take count) ≠ .error (.elements fault)) :
    (layout.clusteringRange start count).mapError .elements >>= make = .error (.elements fault) ↔
      layout.clustering.length < start.toNat + count ∧
        .beyondLastColumn count start layout.clustering.length = fault := by
  rw [clusteringRange]
  split
  next hfits => exact iff_of_false (hmake hfits) fun h => absurd h.1 (Nat.not_lt.mpr hfits)
  next hbeyond =>
    rw [and_iff_right (Nat.lt_of_not_le hbeyond)]
    change Except.error (Error.elements _) = _ ↔ _
    rw [Except.error.injEq, Error.elements.injEq]

theorem sliceSerialized_eq_elements_error_iff (hplaced : Column.InPlace .clustering layout.clustering)
    {values : List Bytes} {fault : ElementsFault} :
    layout.sliceSerialized start values = .error (.elements fault) ↔
      layout.clustering.length < start.toNat + values.length ∧
        .beyondLastColumn values.length start layout.clustering.length = fault := by
  apply clusteringRange_bind_eq_elements_error_iff
  intro hfits
  exact build_ne_elements (length_run hfits) (run_ascends hplaced _ _) fault

theorem slice_eq_elements_error_iff (hplaced : Column.InPlace .clustering layout.clustering)
    {values : List Value} {fault : ElementsFault} :
    layout.slice start values = .error (.elements fault) ↔
      layout.clustering.length < start.toNat + values.length ∧
        .beyondLastColumn values.length start layout.clustering.length = fault := by
  apply clusteringRange_bind_eq_elements_error_iff
  intro hfits
  exact encodeAll_build_ne_elements (length_run hfits) (run_ascends hplaced _ _) fault

theorem partitionKey_eq_elements_error_iff (hplaced : Column.InPlace .partition layout.partition)
    {values : List Value} {fault : ElementsFault} :
    layout.partitionKey values = .error (.elements fault) ↔
      values.length ≠ layout.partition.length ∧
        .partitionKeySize layout.partition.length values.length = fault := by
  rw [partitionKey, throw_or_eq_error_iff, Error.elements.injEq]
  refine or_iff_left ?_
  rintro ⟨hlength, h⟩
  exact encodeAll_build_ne_elements (not_not.mp hlength).symm hplaced.ascends fault h

/-- The columns of a slice have the positions from the start on. -/
theorem run_inPlace (hplaced : Column.InPlace .clustering layout.clustering) {start count i : Nat} {column : Column}
    (hcolumn : ((layout.clustering.drop start).take count)[i]? = some column) :
    column.kind = .clustering ∧ column.position.toNat = start + i := by
  obtain ⟨hi, rfl⟩ := List.getElem?_eq_some_iff.mp hcolumn
  rw [List.getElem_take, List.getElem_drop]
  exact hplaced _ _ (List.getElem?_eq_getElem _)

/-- A layout makes a key of a list of values if there are columns for all of them and each is let into its column. From
    serialized values it makes the key with just these values in the columns from the start on. From other values it
    makes what it makes of their stored forms, so each needs one. The partition key needs a value for each of its
    columns. Lists of columns are also refused for their kinds and their order when they become a key. That never
    happens here, since the schema passed its check. -/
theorem admission_is_exact {schema : Schema} {settings : Settings}
    (hlayout : ofSchema schema settings = .ok layout) :
    (∀ (start : UInt64) (values : List Bytes),
      ((∃ k, layout.sliceSerialized start values = .ok k) ↔
        start.toNat + values.length ≤ layout.clustering.length ∧
          List.Forall₂ settings.keys.Admits ((layout.clustering.drop start.toNat).take values.length) values) ∧
      (∀ k, layout.sliceSerialized start values = .ok k →
        k.marker = .regular ∧ k.values = values ∧
          k.columns = (layout.clustering.drop start.toNat).take values.length ∧
          ∀ (i : Nat) (column : Column), k.columns[i]? = some column →
            column.kind = .clustering ∧ column.position.toNat = start.toNat + i) ∧
      (∀ fault, layout.sliceSerialized start values = .error (.elements fault) ↔
        layout.clustering.length < start.toNat + values.length ∧
          .beyondLastColumn values.length start layout.clustering.length = fault)) ∧
    (∀ (start : UInt64) (values : List Value),
      ((∃ k, layout.slice start values = .ok k) ↔
        start.toNat + values.length ≤ layout.clustering.length ∧
          ∃ bytes, StoredIn ((layout.clustering.drop start.toNat).take values.length) values bytes ∧
            List.Forall₂ settings.keys.Admits ((layout.clustering.drop start.toNat).take values.length) bytes) ∧
      (∀ bytes, StoredIn ((layout.clustering.drop start.toNat).take values.length) values bytes →
        layout.slice start values = layout.sliceSerialized start bytes) ∧
      (∀ fault, layout.slice start values = .error (.elements fault) ↔
        layout.clustering.length < start.toNat + values.length ∧
          .beyondLastColumn values.length start layout.clustering.length = fault)) ∧
    (∀ values : List Value,
      ((∃ k, layout.partitionKey values = .ok k) ↔
        values.length = layout.partition.length ∧
          ∃ bytes, StoredIn layout.partition values bytes ∧
            List.Forall₂ settings.keys.Admits layout.partition bytes) ∧
      (∀ k, layout.partitionKey values = .ok k →
        k.marker = .regular ∧ k.columns = layout.partition ∧ StoredIn layout.partition values k.values) ∧
      (∀ fault, layout.partitionKey values = .error (.elements fault) ↔
        values.length ≠ layout.partition.length ∧
          .partitionKeySize layout.partition.length values.length = fault)) := by
  obtain ⟨hcheck, _, hpartition, hclustering, hsettings⟩ := ofSchema_eq_ok_iff.mp hlayout
  have hplaced := Schema.inPlace_clusteringColumns hcheck hclustering
  have hpartitionPlaced := Schema.inPlace_partitionColumns hcheck hpartition
  rw [hsettings]
  refine ⟨fun start values => ⟨?_, ?_, ?_⟩, fun start values => ⟨?_, ?_, ?_⟩, fun values => ⟨?_, ?_, ?_⟩⟩
  · exact exists_sliceSerialized_iff hplaced
  · intro k hk
    obtain ⟨_, _, hcolumns, hvalues, hregular⟩ := build_eq_ok_iff.mp (sliceSerialized_eq_ok_iff.mp hk).2
    refine ⟨hregular, hvalues, hcolumns, ?_⟩
    intro i column hcolumn
    rw [hcolumns] at hcolumn
    exact run_inPlace hplaced hcolumn
  · intro fault
    exact sliceSerialized_eq_elements_error_iff hplaced
  · exact exists_slice_iff hplaced
  · intro bytes hstored
    exact slice_eq_sliceSerialized hstored
  · intro fault
    exact slice_eq_elements_error_iff hplaced
  · rw [exists_partitionKey_iff hpartitionPlaced, iff_and_self]
    rintro ⟨bytes, hstored, _⟩
    exact hstored.length_values.symm
  · intro k hk
    obtain ⟨bytes, hstored, hk⟩ := partitionKey_eq_ok_iff.mp hk
    obtain ⟨_, _, hcolumns, hvalues, hregular⟩ := build_eq_ok_iff.mp hk
    rw [hvalues]
    exact ⟨hregular, hcolumns, hstored⟩
  · intro fault
    exact partitionKey_eq_elements_error_iff hpartitionPlaced

/-- The last column takes a value of its width only, and after it there is place for no value at all. -/
theorem admission_is_exact_of_year_month :
    let schema : Schema := {
      keyspace := "ks"
      table := "logs"
      partitionKeys := [⟨"source", "uuid", 0⟩]
      clusteringKeys := [⟨"month", "tinyint", 1, "ASC"⟩, ⟨"year", "int", 0, "DESC"⟩] }
    let year := Column.ofClustering "ks" "logs" "year" .int .desc 0
    let month := Column.ofClustering "ks" "logs" "month" .tinyint .asc 1
    let layout : KeyLayout := {
      partition := [.ofPartition "ks" "logs" "source" .uuid 0]
      clustering := [year, month]
      settings := {} }
    ofSchema schema {} = .ok layout ∧ (∃ k, layout.sliceSerialized 1 [[3]] = .ok k) ∧
      (¬ ∃ k, layout.sliceSerialized 1 [[]] = .ok k) ∧ (∃ k, layout.sliceSerialized 2 [] = .ok k) ∧
      (¬ ∃ k, layout.sliceSerialized 2 [[3]] = .ok k) := by
  intro schema year month layout
  have hlayout : ofSchema schema {} = .ok layout := by
    refine ofSchema_eq_ok_iff.mpr ⟨?_, rfl, ?_, ?_, rfl⟩ <;> decide +kernel
  obtain ⟨hserialized, _⟩ := admission_is_exact hlayout
  exact ⟨hlayout, (hserialized 1 [[3]]).1.mpr (by decide), mt (hserialized 1 [[]]).1.mp (by decide),
    (hserialized 2 []).1.mpr (by decide), mt (hserialized 2 [[3]]).1.mp (by decide)⟩

end KeyLayout

end ClusteringKeys
