import ClusteringKeys.KeyType.Json
import ClusteringKeys.Proofs.Except
import ClusteringKeys.Proofs.Json.Standard
import ClusteringKeys.Proofs.Uuid
import ClusteringKeys.Schema.Json
import ClusteringKeys.Settings
import ClusteringKeys.Value.Json
import Mathlib

namespace ClusteringKeys

open Json (Library IsWord)

section Words

theorem isWord_of_bounds {low high i : Int} (hlow : low ≤ i) (hhigh : i ≤ high)
    (hword : Int64.minValue.toInt ≤ low ∧ high < UInt64.size) : IsWord i :=
  ⟨hword.1.trans hlow, hhigh.trans_lt hword.2⟩

theorem isWord_byte (x : UInt8) : IsWord x.toNat :=
  isWord_of_bounds (Int.natCast_nonneg _) (Int.ofNat_le.mpr x.toNat_lt.le) (by decide)

theorem isWord_position (n : UInt64) : IsWord n.toNat :=
  ⟨(by decide : Int64.minValue.toInt ≤ 0).trans (Int.natCast_nonneg _), Int.ofNat_lt.mpr n.toNat_lt_size⟩

theorem isWord_int8 (n : Int8) : IsWord n.toInt :=
  isWord_of_bounds n.minValue_le_toInt n.toInt_le (by decide)

theorem isWord_int16 (n : Int16) : IsWord n.toInt :=
  isWord_of_bounds n.minValue_le_toInt n.toInt_le (by decide)

theorem isWord_int32 (n : Int32) : IsWord n.toInt :=
  isWord_of_bounds n.minValue_le_toInt n.toInt_le (by decide)

theorem isWord_int64 (n : Int64) : IsWord n.toInt :=
  isWord_of_bounds n.minValue_le_toInt n.toInt_le (by decide)

end Words

section Fields

variable [Library] (h : Library.Documented) {depth : Nat}

include h

theorem position?_ofInteger (n : UInt64) : position? (Library.ofInteger n.toNat) = some n := by
  have hread : Library.integer? 0 (UInt64.size - 1) (Library.ofInteger n.toNat) = some (n.toNat : Int) :=
    h.integer?_ofInteger (isWord_position n) (Int.natCast_nonneg _)
      (Int.le_sub_one_of_lt (Int.ofNat_lt.mpr n.toNat_lt_size))
  rw [position?, hread]
  exact congrArg some UInt64.ofNat_toNat

theorem PartitionKey.ofJson?_toJson (key : PartitionKey) : ofJson? key.toJson = some key := by
  have hfields : Library.record? ["name", "type", "position"] key.toJson = _ :=
    h.record?_ofRecord_zip [Library.ofString key.name, Library.ofString key.typeName,
      Library.ofInteger key.position.toNat] (by decide) rfl
  rw [ofJson?, hfields]
  simp [Library.required, h.string?_ofString, position?_ofInteger h]

theorem PartitionKey.prints_toJson (key : PartitionKey) : Library.Prints (depth + 1) key.toJson := by
  apply h.prints_ofRecord
  simp [h.prints_ofString, h.prints_ofInteger, isWord_position]

theorem ClusteringKey.ofJson?_toJson (key : ClusteringKey) : ofJson? key.toJson = some key := by
  have hfields : Library.record? ["name", "type", "position", "order"] key.toJson = _ :=
    h.record?_ofRecord_zip [Library.ofString key.name, Library.ofString key.typeName,
      Library.ofInteger key.position.toNat, Library.ofString key.order] (by decide) rfl
  rw [ofJson?, hfields]
  simp [Library.required, Library.optional, h.string?_ofString, position?_ofInteger h]

theorem ClusteringKey.prints_toJson (key : ClusteringKey) : Library.Prints (depth + 1) key.toJson := by
  apply h.prints_ofRecord
  simp [h.prints_ofString, h.prints_ofInteger, isWord_position]

theorem ListedColumn.ofJson?_toJson (column : ListedColumn) : ofJson? column.toJson = some column := by
  have hfields : Library.record? ["name", "type"] column.toJson = _ :=
    h.record?_ofRecord_zip [Library.ofString column.name, Library.ofString column.typeName] (by decide) rfl
  rw [ofJson?, hfields]
  simp [Library.required, h.string?_ofString]

theorem ListedColumn.prints_toJson (column : ListedColumn) : Library.Prints (depth + 1) column.toJson := by
  apply h.prints_ofRecord
  simp [h.prints_ofString]

theorem KeySettings.ofJson?_toJson (s : KeySettings) : ofJson? s.toJson = some s := by
  have hfields : Library.record? ["validate_values", "allow_empty_values"] s.toJson = _ :=
    h.record?_ofRecord_zip [Library.ofBool s.validateValues, Library.ofBool s.allowEmptyValues] (by decide) rfl
  rw [ofJson?, hfields]
  simp [Library.optional, h.bool?_ofBool]

theorem KeySettings.prints_toJson (s : KeySettings) : Library.Prints (depth + 1) s.toJson := by
  apply h.prints_ofRecord
  simp [h.prints_ofBool]

theorem Bytes.ofJson?_toJson (b : Bytes) : ofJson? b.toJson = some b := by
  refine h.listOf?_ofList_map (fun x => ?_) b
  have hread : Library.integer? 0 255 (Library.ofInteger x.toNat) = some (x.toNat : Int) :=
    h.integer?_ofInteger (isWord_byte x) (Int.natCast_nonneg _) (by have := x.toNat_lt; omega)
  rw [hread]
  exact congrArg some UInt8.ofNat_toNat

theorem Bytes.prints_toJson (b : Bytes) : Library.Prints (depth + 1) b.toJson :=
  h.prints_ofList (List.forall_mem_map.mpr fun x _ => h.prints_ofInteger (isWord_byte x))

end Fields

namespace KeyType

variable [Library] (h : Library.Documented)

include h

theorem ofJson?_toJson (type : KeyType) : ofJson? type.toJson = some type := by
  cases type with
  | custom name =>
    rw [ofJson?, toJson, h.ofVariant_some, h.variant?_object (List.mem_singleton_self "Custom")]
    simp [h.string?_ofString]
  | _ =>
    change ofJson? (Library.ofVariant _ none) = _
    rw [ofJson?, h.ofVariant_none, h.variant?_text (by decide)]
    rfl

theorem prints_toJson (type : KeyType) {depth : Nat} : Library.Prints (depth + 1) type.toJson := by
  cases type with
  | custom name => exact h.prints_ofVariant_some "Custom" (h.prints_ofString name)
  | _ => exact h.prints_ofVariant_none _

end KeyType

namespace Value

variable [Library] (h : Library.Documented)

include h

theorem ofJson?_tagged {tag : String} (htag : tag ∈ holding) (payload : Json) :
    ofJson? (tagged tag payload) = ofTagged? tag payload := by
  rw [ofJson?, tagged, h.ofVariant_some, h.variant?_object htag]
  rfl

theorem int8?_ofInteger (n : Int8) : int8? (Library.ofInteger n.toInt) = some n := by
  rw [int8?, h.integer?_ofInteger (isWord_int8 n) n.minValue_le_toInt n.toInt_le]
  exact congrArg some n.ofInt_toInt

theorem int16?_ofInteger (n : Int16) : int16? (Library.ofInteger n.toInt) = some n := by
  rw [int16?, h.integer?_ofInteger (isWord_int16 n) n.minValue_le_toInt n.toInt_le]
  exact congrArg some n.ofInt_toInt

theorem int32?_ofInteger (n : Int32) : int32? (Library.ofInteger n.toInt) = some n := by
  rw [int32?, h.integer?_ofInteger (isWord_int32 n) n.minValue_le_toInt n.toInt_le]
  exact congrArg some n.ofInt_toInt

theorem int64?_ofInteger (n : Int64) : int64? (Library.ofInteger n.toInt) = some n := by
  rw [int64?, h.integer?_ofInteger (isWord_int64 n) n.minValue_le_toInt n.toInt_le]
  exact congrArg some n.ofInt_toInt

/-- All values but floating point numbers are read back. Nothing is documented of those that reading them gives the same
    number. -/
theorem ofJson?_toJson {v : Value} (hsingle : ∀ x, v ≠ float x) (hdouble : ∀ x, v ≠ double x) :
    ofJson? v.toJson = some v := by
  cases v with
  | float x => exact absurd rfl (hsingle x)
  | double x => exact absurd rfl (hdouble x)
  | null =>
    rw [ofJson?, toJson, h.ofVariant_none, h.variant?_text (List.mem_singleton_self "Null")]
    rfl
  | uuid u =>
    have hbytes : Uuid.ofBytes? u.bytes = some u := Uuid.ofBytes?_eq_some_iff.mpr rfl
    rw [toJson, ofJson?_tagged h (by decide)]
    simp [ofTagged?, Bytes.ofJson?_toJson h, hbytes]
  | boolean | text =>
    rw [toJson, ofJson?_tagged h (by decide)]
    simp [ofTagged?, h.bool?_ofBool, h.string?_ofString]
  | blob | inet =>
    rw [toJson, ofJson?_tagged h (by decide)]
    simp [ofTagged?, Bytes.ofJson?_toJson h]
  | _ =>
    rw [toJson, ofJson?_tagged h (by decide)]
    simp [ofTagged?, int8?_ofInteger h, int16?_ofInteger h, int32?_ofInteger h, int64?_ofInteger h]

theorem prints_toJson {v : Value} (hsingle : ∀ x, v ≠ float x) (hdouble : ∀ x, v ≠ double x) {depth : Nat} :
    Library.Prints (depth + 2) v.toJson := by
  cases v with
  | float x => exact absurd rfl (hsingle x)
  | double x => exact absurd rfl (hdouble x)
  | null => exact h.prints_ofVariant_none "Null"
  | boolean b => exact h.prints_ofVariant_some _ (h.prints_ofBool b)
  | text s => exact h.prints_ofVariant_some _ (h.prints_ofString s)
  | uuid | blob | inet => exact h.prints_ofVariant_some _ (Bytes.prints_toJson h _)
  | tinyint n => exact h.prints_ofVariant_some _ (h.prints_ofInteger (isWord_int8 n))
  | smallint n => exact h.prints_ofVariant_some _ (h.prints_ofInteger (isWord_int16 n))
  | int n | date n => exact h.prints_ofVariant_some _ (h.prints_ofInteger (isWord_int32 n))
  | bigint n | timestamp n | time n => exact h.prints_ofVariant_some _ (h.prints_ofInteger (isWord_int64 n))

end Value

namespace Schema

variable [Library] (h : Library.Documented) (s : Schema)

include h

theorem ofJson?_toJson : ofJson? s.toJson = some s := by
  have hfields : Library.record? ["keyspace", "table", "partition_keys", "clustering_keys", "columns"] s.toJson = _ :=
    h.record?_ofRecord_zip [Library.ofString s.keyspace, Library.ofString s.table,
      Library.ofList (s.partitionKeys.map PartitionKey.toJson),
      Library.ofList (s.clusteringKeys.map ClusteringKey.toJson),
      Library.ofList (s.columns.map ListedColumn.toJson)] (by decide) rfl
  rw [ofJson?, hfields]
  simp [Library.required, Library.optional, h.string?_ofString, h.listOf?_ofList_map (PartitionKey.ofJson?_toJson h),
    h.listOf?_ofList_map (ClusteringKey.ofJson?_toJson h), h.listOf?_ofList_map (ListedColumn.ofJson?_toJson h)]

theorem prints_toJson {depth : Nat} : Library.Prints (depth + 3) s.toJson := by
  apply h.prints_ofRecord
  simp [h.prints_ofString, h.prints_ofList, PartitionKey.prints_toJson h, ClusteringKey.prints_toJson h,
    ListedColumn.prints_toJson h]

theorem read?_print : read? (Library.print s.toJson) = some s := by
  rw [read?, h.parse?_print (s.prints_toJson h)]
  exact s.ofJson?_toJson h

/-- A schema that is read from its own text only has to be checked. -/
theorem ofText_print : ofText (Library.print s.toJson) = s.check >>= fun _ => pure s := by
  rw [ofText, s.read?_print h]

end Schema

namespace Settings

variable [Library] (h : Library.Documented) (s : Settings)

include h

theorem ofJson?_toJson : ofJson? s.toJson = some s := by
  have hfields : Library.record? ["keys"] s.toJson = _ := h.record?_ofRecord_zip [s.keys.toJson] (by decide) rfl
  rw [ofJson?, hfields]
  simp [Library.optional, KeySettings.ofJson?_toJson h]

theorem prints_toJson {depth : Nat} : Library.Prints (depth + 2) s.toJson := by
  apply h.prints_ofRecord
  simp [KeySettings.prints_toJson h]

theorem read?_print : read? (Library.print s.toJson) = some s := by
  rw [read?, h.parse?_print (s.prints_toJson h)]
  exact s.ofJson?_toJson h

theorem ofText_print : ofText (Library.print s.toJson) = s.check >>= fun _ => pure s := by
  rw [ofText, s.read?_print h]

end Settings

/-- With any library that keeps to its documentation, schemas, settings, types and values other than floating point
    numbers are read back from their texts as they were. Loading the text of a schema or of settings succeeds where
    their check does, and otherwise reports the fault that the check finds. -/
theorem persisted_data_reads_back [Library] (h : Library.Documented) :
    (∀ s : Schema, Schema.read? (Library.print s.toJson) = some s ∧
      (Schema.ofText (Library.print s.toJson) = .ok s ↔ s.check = .ok ()) ∧
      ∀ fault, Schema.ofText (Library.print s.toJson) = .error fault ↔ s.check = .error fault) ∧
    (∀ s : Settings, Settings.read? (Library.print s.toJson) = some s ∧
      (Settings.ofText (Library.print s.toJson) = .ok s ↔ s.check = .ok ()) ∧
      ∀ fault, Settings.ofText (Library.print s.toJson) = .error fault ↔ s.check = .error fault) ∧
    (∀ type : KeyType, (Library.parse? (Library.print type.toJson)).bind KeyType.ofJson? = some type) ∧
    ∀ v : Value, (∀ x, v ≠ .float x) → (∀ x, v ≠ .double x) →
      (Library.parse? (Library.print v.toJson)).bind Value.ofJson? = some v := by
  refine ⟨fun s => ⟨s.read?_print h, ?_, fun fault => ?_⟩, fun s => ⟨s.read?_print h, ?_, fun fault => ?_⟩,
    fun type => ?_, fun v hsingle hdouble => ?_⟩
  · rw [s.ofText_print h]
    exact checked_eq_ok_iff
  · rw [s.ofText_print h]
    exact bind_pure_eq_error_iff
  · rw [s.ofText_print h]
    exact checked_eq_ok_iff
  · rw [s.ofText_print h]
    exact bind_pure_eq_error_iff
  · rw [h.parse?_print (type.prints_toJson h)]
    exact type.ofJson?_toJson h
  · rw [h.parse?_print (Value.prints_toJson h hsingle hdouble)]
    exact Value.ofJson?_toJson h hsingle hdouble

/-- The library that runs is one such library. The names have to be escaped, the order of the clustering key is the one
    that it has by default, and a shorter text leaves it out. -/
theorem persisted_data_reads_back_of_escaped_names :
    let type := KeyType.custom "org.example.Point"
    let schema : Schema := {
      keyspace := "a \"b\"\n\x01é"
      table := "logs"
      partitionKeys := [⟨"path\\to", type.name, 0⟩]
      clusteringKeys := [⟨"day", "date", 0, "ASC"⟩] }
    let beginning :=
      "\x7b\"keyspace\":\"a \\\"b\\\"\\n\\u0001é\",\"table\":\"logs\",\"partition_keys\":[" ++
        "\x7b\"name\":\"path\\\\to\",\"type\":\"org.example.Point\",\"position\":0\x7d],\"clustering_keys\":[" ++
          "\x7b\"name\":\"day\",\"type\":\"date\",\"position\":0"
    let least := Value.bigint Int64.minValue
    Library.Documented ∧
      Library.print schema.toJson = beginning ++ ",\"order\":\"ASC\"\x7d],\"columns\":[]\x7d" ∧
      Schema.read? (Library.print schema.toJson) = some schema ∧
      Schema.ofText (Library.print schema.toJson) = .ok schema ∧
      Schema.read? (beginning ++ "\x7d]\x7d") = some schema ∧
      (Library.parse? (Library.print type.toJson)).bind KeyType.ofJson? = some type ∧
      (∀ x, least ≠ .float x) ∧ (∀ x, least ≠ .double x) ∧
      (Library.parse? (Library.print least.toJson)).bind Value.ofJson? = some least := by
  intro type schema beginning least
  have hlibrary : Library.Documented := Json.documented_standard
  have hcheck : schema.check = .ok () := by decide +kernel
  have hsingle : ∀ x, least ≠ .float x := by simp [least]
  have hdouble : ∀ x, least ≠ .double x := by simp [least]
  obtain ⟨hschemas, _, htypes, hvalues⟩ := persisted_data_reads_back hlibrary
  obtain ⟨hread, hload, _⟩ := hschemas schema
  refine ⟨hlibrary, ?_, hread, hload.mpr hcheck, ?_, htypes type, hsingle, hdouble, hvalues least hsingle hdouble⟩
  · decide +kernel
  · decide +kernel

end ClusteringKeys
