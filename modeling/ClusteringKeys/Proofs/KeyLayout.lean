import ClusteringKeys.KeyLayout
import ClusteringKeys.Proofs.Key.Columns
import ClusteringKeys.Proofs.Schema
import ClusteringKeys.Proofs.Value.Encode
import Mathlib

namespace ClusteringKeys

/-- The cell stores the value. -/
def Value.Encodes (v : Value) (cell : Cell) : Prop :=
  v.encode? cell.column.type = some cell.value

/-- In each of the columns its value is stored as its bytes. -/
inductive StoredIn : List Column → List Value → List Bytes → Prop where
  | nil : StoredIn [] [] []
  | cons {column : Column} {v : Value} {b : Bytes} {columns : List Column} {values : List Value} {bytes : List Bytes} :
    v.encode column.type = .ok b → StoredIn columns values bytes →
      StoredIn (column :: columns) (v :: values) (b :: bytes)

namespace StoredIn

theorem length_values {columns : List Column} {values : List Value} {bytes : List Bytes}
    (h : StoredIn columns values bytes) : columns.length = values.length := by
  induction h with
  | nil => rfl
  | cons _ _ ih => exact congrArg Nat.succ ih

theorem length_bytes {columns : List Column} {values : List Value} {bytes : List Bytes}
    (h : StoredIn columns values bytes) : bytes.length = values.length := by
  induction h with
  | nil => rfl
  | cons _ _ ih => exact congrArg Nat.succ ih

theorem forall₂_encodes {values : List Value} {cells : List Cell}
    (h : StoredIn (cells.map Cell.column) values (cells.map Cell.value)) : List.Forall₂ Value.Encodes values cells := by
  induction cells generalizing values with
  | nil =>
    cases h
    exact .nil
  | cons cell cells ih =>
    cases h with
    | cons hv hrest => exact .cons (Value.encode_eq_ok_iff.mp hv) (ih hrest)

end StoredIn

/-- The settings let a serialized value into a column. They check no values, or it has the form of the column's type, or
    it is empty and they allow that where values have a fixed width. -/
def KeySettings.Admits (settings : KeySettings) (column : Column) (value : Bytes) : Prop :=
  settings.validateValues = false ∨ column.type.check value = .ok () ∨
    (value = [] ∧ column.type.width?.isSome ∧ settings.allowEmptyValues)

instance (settings : KeySettings) (column : Column) (value : Bytes) : Decidable (settings.Admits column value) :=
  inferInstanceAs (Decidable (_ ∨ _ ∨ _))

namespace KeyLayout

/-- Schema and settings make a layout if both pass their checks. It has the columns of the schema. -/
theorem ofSchema_eq_ok_iff {schema : Schema} {settings : Settings} {layout : KeyLayout} :
    ofSchema schema settings = .ok layout ↔
      schema.check = .ok () ∧ settings.check = .ok () ∧ schema.partitionColumns = .ok layout.partition ∧
        schema.clusteringColumns = .ok layout.clustering ∧ settings.keys = layout.settings := by
  simp only [ofSchema, bind_eq_ok_iff, mapError_eq_ok_iff]
  constructor
  · rintro ⟨_, hschema, _, hsettings, partition, hpartition, clustering, hclustering, hlayout⟩
    obtain rfl := Except.ok.inj hlayout
    exact ⟨hschema, hsettings, hpartition, hclustering, rfl⟩
  · rintro ⟨hschema, hsettings, hpartition, hclustering, hkeys⟩
    exact ⟨(), hschema, (), hsettings, _, hpartition, _, hclustering, by rw [hkeys]; rfl⟩

theorem checkValue_eq_ok_iff {layout : KeyLayout} {column : Column} {value : Bytes} :
    layout.checkValue column value = .ok () ↔ layout.settings.Admits column value := by
  rw [checkValue, KeySettings.Admits]
  cases layout.settings.validateValues with
  | false => simp
  | true =>
    simp only [Bool.not_true, Bool.false_eq_true, if_false, Bool.and_eq_true, List.isEmpty_iff, false_or, reduceCtorEq]
    split
    next hempty =>
      obtain ⟨width, hwidth⟩ := Option.isSome_iff_exists.mp hempty.2
      have hcheck : column.type.check value ≠ .ok () := by
        rw [ne_eq, KeyType.check_eq_ok_iff_length hwidth, hempty.1]
        exact (KeyType.width_pos hwidth).ne
      rw [or_iff_right hcheck]
      simp [hempty]
    next hempty =>
      rw [mapError_eq_ok_iff, ← and_assoc]
      exact (or_iff_left fun h => hempty h.1).symm

/-- Columns and serialized values make a key if each value is let into its column and the columns can be those of a
    key. -/
theorem build_eq_ok_iff {layout : KeyLayout} {columns : List Column} {values : List Bytes} {key : Key} :
    layout.build columns values = .ok key ↔
      List.Forall₂ layout.settings.Admits columns values ∧
        (columns.IsChain fun c d => c.kind = d.kind ∧ c.position < d.position) ∧
        key.columns = columns ∧ key.values = values ∧ key.marker = .regular := by
  rw [build, bind_eq_ok_iff, List.forall₂_iff_zip]
  simp only [forM_eq_ok_iff, Prod.forall, mapError_eq_ok_iff, checkValue_eq_ok_iff, Key.ofColumns_eq_ok_iff]
  constructor
  · rintro ⟨_, hadmits, hlength, hkey⟩
    exact ⟨⟨hlength, hadmits⟩, hkey⟩
  · rintro ⟨⟨hlength, hadmits⟩, hkey⟩
    exact ⟨(), hadmits, hlength, hkey⟩

/-- Ascending columns with a value for each are refused only because of a value. -/
theorem build_ne_elements {layout : KeyLayout} {columns : List Column} {values : List Bytes}
    (hlength : columns.length = values.length)
    (hascend : columns.IsChain fun c d => c.kind = d.kind ∧ c.position < d.position) (fault : ElementsFault) :
    layout.build columns values ≠ .error (.elements fault) := by
  intro h
  rcases bind_eq_error_iff.mp h with hvalue | ⟨_, _, helements⟩
  · obtain ⟨_, _, hvalue⟩ := exists_mem_of_forM_eq_error hvalue
    obtain ⟨_, _, hfault⟩ := mapError_eq_error_iff.mp hvalue
    cases hfault
  · obtain ⟨_, herror, _⟩ := mapError_eq_error_iff.mp helements
    obtain ⟨k, hk⟩ := Key.exists_ofColumns_iff.mpr ⟨hlength, hascend⟩
    cases hk.symm.trans herror

theorem encodeAll_eq_ok_iff {columns : List Column} {values : List Value} {bytes : List Bytes}
    (hlength : columns.length = values.length) :
    encodeAll columns values = .ok bytes ↔ StoredIn columns values bytes := by
  induction columns generalizing values bytes with
  | nil =>
    obtain rfl := List.length_eq_zero_iff.mp hlength.symm
    constructor
    · intro h
      obtain rfl := Except.ok.inj h
      exact .nil
    · rintro ⟨⟩
      rfl
  | cons column columns ih =>
    cases values with
    | nil => cases hlength
    | cons v values =>
      have hrest (bs : List Bytes) : encodeAll columns values = .ok bs ↔ StoredIn columns values bs :=
        ih (Nat.succ.inj hlength)
      simp only [encodeAll] at hrest
      simp only [encodeAll, List.zip_cons_cons, List.mapM_cons, bind_eq_ok_iff, hrest]
      constructor
      · rintro ⟨b, hb, bs, hbs, hbytes⟩
        obtain rfl := Except.ok.inj hbytes
        exact .cons hb hbs
      · rintro ⟨⟩
        exact ⟨_, ‹_›, _, ‹_›, rfl⟩

/-- A range within the clustering columns has as many of them as it counts. -/
theorem length_run {layout : KeyLayout} {start count : Nat} (hfits : start + count ≤ layout.clustering.length) :
    ((layout.clustering.drop start).take count).length = count := by
  rw [List.length_take, List.length_drop]
  omega

theorem clusteringRange_eq_ok_iff {layout : KeyLayout} {start : UInt64} {count : Nat} {columns : List Column} :
    layout.clusteringRange start count = .ok columns ↔
      start.toNat + count ≤ layout.clustering.length ∧
        (layout.clustering.drop start.toNat).take count = columns := by
  rw [clusteringRange]
  split
  next hfits =>
    rw [and_iff_right hfits]
    exact ⟨Except.ok.inj, congrArg Except.ok⟩
  next hbeyond => exact iff_of_false nofun fun h => hbeyond h.1

theorem sliceSerialized_eq_ok_iff {layout : KeyLayout} {start : UInt64} {values : List Bytes} {key : Key} :
    layout.sliceSerialized start values = .ok key ↔
      start.toNat + values.length ≤ layout.clustering.length ∧
        layout.build ((layout.clustering.drop start.toNat).take values.length) values = .ok key := by
  rw [sliceSerialized, bind_eq_ok_iff]
  simp only [mapError_eq_ok_iff, clusteringRange_eq_ok_iff]
  constructor
  · rintro ⟨_, ⟨hfits, rfl⟩, hkey⟩
    exact ⟨hfits, hkey⟩
  · rintro ⟨hfits, hkey⟩
    exact ⟨_, ⟨hfits, rfl⟩, hkey⟩

/-- Values make the key that their stored forms make. -/
theorem slice_eq_sliceSerialized {layout : KeyLayout} {start : UInt64} {values : List Value} {bytes : List Bytes}
    (h : StoredIn ((layout.clustering.drop start.toNat).take values.length) values bytes) :
    layout.slice start values = layout.sliceSerialized start bytes := by
  rw [slice, sliceSerialized, h.length_bytes]
  cases hrange : layout.clusteringRange start values.length with
  | error fault => rfl
  | ok columns =>
    obtain ⟨_, rfl⟩ := clusteringRange_eq_ok_iff.mp hrange
    have hencode := (encodeAll_eq_ok_iff h.length_values).mpr h
    change (encodeAll _ values).mapError Error.conversion >>= layout.build _ = layout.build _ bytes
    rw [hencode]
    rfl

theorem slice_eq_ok_iff {layout : KeyLayout} {start : UInt64} {values : List Value} {key : Key} :
    layout.slice start values = .ok key ↔
      ∃ bytes, StoredIn ((layout.clustering.drop start.toNat).take values.length) values bytes ∧
        layout.sliceSerialized start bytes = .ok key := by
  constructor
  · intro h
    obtain ⟨columns, hcolumns, h⟩ := bind_eq_ok_iff.mp h
    obtain ⟨bytes, hbytes, h⟩ := bind_eq_ok_iff.mp h
    obtain ⟨hfits, rfl⟩ := clusteringRange_eq_ok_iff.mp (mapError_eq_ok_iff.mp hcolumns)
    have hstored := (encodeAll_eq_ok_iff (length_run hfits)).mp (mapError_eq_ok_iff.mp hbytes)
    rw [← hstored.length_bytes] at hfits h
    exact ⟨bytes, hstored, sliceSerialized_eq_ok_iff.mpr ⟨hfits, h⟩⟩
  · rintro ⟨bytes, hstored, h⟩
    rw [slice_eq_sliceSerialized hstored, h]

theorem partitionKey_eq_ok_iff {layout : KeyLayout} {values : List Value} {key : Key} :
    layout.partitionKey values = .ok key ↔
      ∃ bytes, StoredIn layout.partition values bytes ∧ layout.build layout.partition bytes = .ok key := by
  rw [partitionKey, throw_or_eq_ok_iff, not_not, bind_eq_ok_iff]
  simp only [mapError_eq_ok_iff]
  constructor
  · rintro ⟨hlength, bytes, hbytes, h⟩
    exact ⟨bytes, (encodeAll_eq_ok_iff hlength.symm).mp hbytes, h⟩
  · rintro ⟨bytes, hstored, h⟩
    have hlength := hstored.length_values
    exact ⟨hlength.symm, bytes, (encodeAll_eq_ok_iff hlength).mpr hstored, h⟩

theorem columns_of_sliceSerialized {layout : KeyLayout} {start : UInt64} {values : List Bytes} {key : Key}
    (h : layout.sliceSerialized start values = .ok key) :
    key.columns = (layout.clustering.drop start.toNat).take values.length :=
  (build_eq_ok_iff.mp (sliceSerialized_eq_ok_iff.mp h).2).2.2.1

theorem values_of_sliceSerialized {layout : KeyLayout} {start : UInt64} {values : List Bytes} {key : Key}
    (h : layout.sliceSerialized start values = .ok key) : key.values = values :=
  (build_eq_ok_iff.mp (sliceSerialized_eq_ok_iff.mp h).2).2.2.2.1

theorem columns_of_partitionKey {layout : KeyLayout} {values : List Value} {key : Key}
    (h : layout.partitionKey values = .ok key) : key.columns = layout.partition := by
  obtain ⟨_, _, hkey⟩ := partitionKey_eq_ok_iff.mp h
  exact (build_eq_ok_iff.mp hkey).2.2.1

/-- A key that is made from values stores them in the columns from the given one on. -/
theorem slice_eq_ok {layout : KeyLayout} {start : UInt64} {values : List Value} {key : Key}
    (h : layout.slice start values = .ok key) :
    key.marker = .regular ∧ key.columns = (layout.clustering.drop start.toNat).take values.length ∧
      List.Forall₂ Value.Encodes values key.cells := by
  obtain ⟨bytes, hstored, h⟩ := slice_eq_ok_iff.mp h
  obtain ⟨_, _, hcolumns, hvalues, hregular⟩ := build_eq_ok_iff.mp (sliceSerialized_eq_ok_iff.mp h).2
  rw [hstored.length_bytes] at hcolumns
  rw [← hcolumns, ← hvalues] at hstored
  exact ⟨hregular, hcolumns, hstored.forall₂_encodes⟩

/-- The key of the first clustering columns that stores the values. -/
theorem leading_eq_ok {layout : KeyLayout} {values : List Value} {key : Key} (h : layout.leading values = .ok key) :
    key.marker = .regular ∧ key.columns = layout.clustering.take values.length ∧
      List.Forall₂ Value.Encodes values key.cells :=
  slice_eq_ok h

end KeyLayout

end ClusteringKeys
