import ClusteringKeys.Proofs.Schema.Resolution
import Mathlib

namespace ClusteringKeys

theorem exists_mem_of_forall₂ {α β : Type} {R : α → β → Prop} {as : List α} {bs : List β}
    (h : List.Forall₂ R as bs) {b : β} (hb : b ∈ bs) : ∃ a ∈ as, R a b := by
  induction h with
  | nil => cases hb
  | cons hab _ ih =>
    rcases List.mem_cons.mp hb with rfl | hb
    · exact ⟨_, List.mem_cons_self, hab⟩
    · obtain ⟨a, ha, hR⟩ := ih hb
      exact ⟨a, List.mem_cons_of_mem _ ha, hR⟩

theorem mem_take_of_getElem? {α : Type} {as : List α} {a : α} {i n : Nat} (h : as[i]? = some a) (hi : i < n) :
    a ∈ as.take n := by
  rw [← List.getElem?_take_of_lt hi] at h
  exact List.mem_of_getElem? h

theorem map_eq_map_of_forall₂ {α β γ : Type} {R : α → β → Prop} {f : α → γ} {g : β → γ} {as : List α} {bs : List β}
    (h : List.Forall₂ R as bs) (hfg : ∀ a b, R a b → f a = g b) : as.map f = bs.map g := by
  have hmap : List.Forall₂ Eq (as.map f) (bs.map g) := List.rel_map hfg h
  rwa [List.forall₂_eq_eq_eq] at hmap

namespace KeyLayout

variable {layout : KeyLayout}

theorem clusteringColumn?_eq_some_iff {name : String} {column : Column} :
    layout.clusteringColumn? name = some column ↔
      column.name = name ∧ ∃ i, layout.clustering[i]? = some column ∧
        ∀ c ∈ layout.clustering.take i, c.name ≠ name := by
  rw [clusteringColumn?, List.find?_eq_some_iff_append, decide_eq_true_iff]
  refine and_congr_right fun _ => ?_
  constructor
  · rintro ⟨before, after, hsplit, hbefore⟩
    refine ⟨before.length, ?_, fun c hc => ?_⟩
    · rw [hsplit, List.getElem?_append_right le_rfl, Nat.sub_self]
      rfl
    · rw [hsplit, List.take_left] at hc
      simpa using hbefore c hc
  · rintro ⟨i, hcolumn, hbefore⟩
    obtain ⟨hi, rfl⟩ := List.getElem?_eq_some_iff.mp hcolumn
    refine ⟨layout.clustering.take i, layout.clustering.drop (i + 1), ?_, fun c hc => ?_⟩
    · rw [← List.drop_eq_getElem_cons hi, List.take_append_drop]
    · simpa using hbefore c hc

/-- A column is found under its name if no column in front of it has that name. -/
theorem clusteringColumn?_name_iff (hplaced : Column.InPlace .clustering layout.clustering) {i : Nat} {column : Column}
    (hcolumn : layout.clustering[i]? = some column) :
    layout.clusteringColumn? column.name = some column ↔
      ∀ c ∈ layout.clustering.take i, c.name ≠ column.name := by
  rw [clusteringColumn?_eq_some_iff, and_iff_right rfl]
  constructor
  · rintro ⟨i', hcolumn', hbefore⟩
    obtain rfl : i' = i := (hplaced i' column hcolumn').2.symm.trans (hplaced i column hcolumn).2
    exact hbefore
  · intro hbefore
    exact ⟨i, hcolumn, hbefore⟩

theorem exists_clusteringColumn? {i : Nat} {column : Column} (hcolumn : layout.clustering[i]? = some column) :
    ∃ j ≤ i, ∃ found, layout.clustering[j]? = some found ∧ found.name = column.name ∧
      layout.clusteringColumn? column.name = some found := by
  have hsome : (layout.clusteringColumn? column.name).isSome :=
    List.find?_isSome.mpr ⟨column, List.mem_of_getElem? hcolumn, decide_eq_true rfl⟩
  obtain ⟨found, hfound⟩ := Option.isSome_iff_exists.mp hsome
  obtain ⟨hname, j, hj, hbefore⟩ := clusteringColumn?_eq_some_iff.mp hfound
  refine ⟨j, ?_, found, hj, hname, hfound⟩
  by_contra hlater
  exact hbefore column (mem_take_of_getElem? hcolumn (Nat.lt_of_not_le hlater)) rfl

theorem forall_clusteringColumn?_name_iff (hplaced : Column.InPlace .clustering layout.clustering) :
    (∀ column ∈ layout.clustering, layout.clusteringColumn? column.name = some column) ↔
      (layout.clustering.map Column.name).Nodup := by
  rw [List.Nodup, List.pairwise_map, List.pairwise_iff_getElem]
  constructor
  · intro hfound i j hi hj hij
    have hbefore := (clusteringColumn?_name_iff hplaced (List.getElem?_eq_getElem hj)).mp
      (hfound _ (List.getElem_mem hj))
    exact hbefore _ (mem_take_of_getElem? (List.getElem?_eq_getElem hi) hij)
  · intro hdistinct column hmem
    obtain ⟨i, hi, rfl⟩ := List.getElem_of_mem hmem
    refine (clusteringColumn?_name_iff hplaced (List.getElem?_eq_getElem hi)).mpr fun c hc => ?_
    obtain ⟨j, hj, rfl⟩ := List.mem_take_iff_getElem.mp hc
    exact hdistinct j i (by omega) hi (by omega)

end KeyLayout

namespace Schema

variable {s : Schema}

theorem map_name_partitionColumns {columns : List Column} (h : s.partitionColumns = .ok columns) :
    (columns.map Column.name).Perm (s.partitionKeys.map PartitionKey.name) := by
  have hnames : s.orderedPartitionKeys.map PartitionKey.name = columns.map Column.name := by
    refine map_eq_map_of_forall₂ (partitionColumns_eq_ok_iff.mp h) ?_
    rintro key _ ⟨_, _, rfl⟩
    rfl
  rw [← hnames]
  exact s.orderedPartitionKeys_perm.map _

theorem map_name_clusteringColumns {columns : List Column} (h : s.clusteringColumns = .ok columns) :
    (columns.map Column.name).Perm (s.clusteringKeys.map ClusteringKey.name) := by
  have hnames : s.orderedClusteringKeys.map ClusteringKey.name = columns.map Column.name := by
    refine map_eq_map_of_forall₂ (clusteringColumns_eq_ok_iff.mp h) ?_
    rintro key _ ⟨_, _, _, _, rfl⟩
    rfl
  rw [← hnames]
  exact s.orderedClusteringKeys_perm.map _

theorem isPartitionKey_iff {name : String} :
    s.isPartitionKey name ↔ name ∈ s.partitionKeys.map PartitionKey.name := by
  simp [isPartitionKey]

theorem isClusteringKey_iff {name : String} :
    s.isClusteringKey name ↔ name ∈ s.clusteringKeys.map ClusteringKey.name := by
  simp [isClusteringKey]

theorem Lists.ofName_eq {name typeName : String} {type : KeyType} (h : s.Lists name typeName)
    (htype : KeyType.ofName typeName = .ok type) :
    ∃ listed, s.columns.find? (fun listed => listed.name = name) = some listed ∧
      KeyType.ofName listed.typeName = .ok type := by
  obtain ⟨listed, hfind, hsame⟩ := h
  rw [htype] at hsame
  refine ⟨listed, hfind, ?_⟩
  cases hlisted : KeyType.ofName listed.typeName with
  | error fault =>
    rw [hlisted] at hsame
    cases hsame
  | ok type' =>
    rw [hlisted] at hsame
    exact congrArg Except.ok (Option.some.inj hsame)

/-- Where the table lists its columns, a key column has the type that is listed first under its name. -/
theorem WellFormed.listed (h : s.WellFormed) (hcolumns : s.columns ≠ []) {partition clustering : List Column}
    (hpartition : s.partitionColumns = .ok partition) (hclustering : s.clusteringColumns = .ok clustering)
    {column : Column} (hmem : column ∈ partition ++ clustering) :
    ∃ listed, s.columns.find? (fun listed => listed.name = column.name) = some listed ∧
      KeyType.ofName listed.typeName = .ok column.type := by
  rcases List.mem_append.mp hmem with hmem | hmem
  · obtain ⟨key, hkey, type, htype, rfl⟩ := exists_mem_of_forall₂ (partitionColumns_eq_ok_iff.mp hpartition) hmem
    exact (h.partitionListed hcolumns key (s.orderedPartitionKeys_perm.mem_iff.mp hkey)).ofName_eq htype
  · obtain ⟨key, hkey, type, htype, _, _, rfl⟩ :=
      exists_mem_of_forall₂ (clusteringColumns_eq_ok_iff.mp hclustering) hmem
    exact (h.clusteringListed hcolumns key (s.orderedClusteringKeys_perm.mem_iff.mp hkey)).ofName_eq htype

/-- Columns of one name have one type where the table lists its columns. -/
theorem WellFormed.type_eq_of_name_eq (h : s.WellFormed) (hcolumns : s.columns ≠ [])
    {partition clustering : List Column} (hpartition : s.partitionColumns = .ok partition)
    (hclustering : s.clusteringColumns = .ok clustering) {c d : Column} (hc : c ∈ partition ++ clustering)
    (hd : d ∈ partition ++ clustering) (hname : c.name = d.name) : c.type = d.type := by
  obtain ⟨listed, hfind, htype⟩ := h.listed hcolumns hpartition hclustering hc
  obtain ⟨listed', hfind', htype'⟩ := h.listed hcolumns hpartition hclustering hd
  rw [hname, hfind'] at hfind
  obtain rfl := Option.some.inj hfind
  exact Except.ok.inj (htype.symm.trans htype')

/-- The schema with other names of its keys. -/
def renamed (s : Schema) (f : PartitionKey → String) (g : ClusteringKey → String) : Schema :=
  { s with
    partitionKeys := s.partitionKeys.map fun key => { key with name := f key }
    clusteringKeys := s.clusteringKeys.map fun key => { key with name := g key } }

/-- The names of the keys are only looked up in the list of columns. -/
theorem wellFormed_renamed_iff (hcolumns : s.columns = []) (f : PartitionKey → String) (g : ClusteringKey → String) :
    (s.renamed f g).WellFormed ↔ s.WellFormed := by
  simp [wellFormed_iff_forall, renamed, hcolumns, Function.comp_def]

/-- The list of columns is checked against one key after the other, on top of everything else. -/
theorem wellFormed_iff_lists :
    s.WellFormed ↔ ({ s with columns := [] } : Schema).WellFormed ∧
      (s.columns ≠ [] → (∀ key ∈ s.partitionKeys, s.Lists key.name key.typeName) ∧
        ∀ key ∈ s.clusteringKeys, s.Lists key.name key.typeName) := by
  simp only [wellFormed_iff_forall]
  tauto

end Schema

namespace KeyLayout

/-- A lookup by name finds the first clustering column of that name. So each column is found under its name just if no
    two clustering keys have the same, and no name stands for keys of both kinds just if the two lists of keys share
    none. The check of a schema never compares the names of its keys: without a list of columns it passes under any
    other names just as well, and with one it looks up each key by itself. Only columns of one type can then have one
    name. -/
theorem lookup_finds_first_of_name (schema : Schema) :
    (∀ settings layout, ofSchema schema settings = .ok layout →
      (∀ (i : Nat) (column : Column), layout.clustering[i]? = some column →
        (∃ j ≤ i, ∃ found, layout.clustering[j]? = some found ∧ found.name = column.name ∧
          layout.clusteringColumn? column.name = some found) ∧
        (layout.clusteringColumn? column.name = some column ↔
          ∀ c ∈ layout.clustering.take i, c.name ≠ column.name)) ∧
      ((∀ column ∈ layout.clustering, layout.clusteringColumn? column.name = some column) ↔
        (schema.clusteringKeys.map ClusteringKey.name).Nodup) ∧
      (∀ name, (schema.isPartitionKey name ↔ name ∈ layout.partition.map Column.name) ∧
        (schema.isClusteringKey name ↔ name ∈ layout.clustering.map Column.name)) ∧
      ((∀ name, ¬ (schema.isPartitionKey name ∧ schema.isClusteringKey name)) ↔
        (schema.partitionKeys.map PartitionKey.name).Disjoint (schema.clusteringKeys.map ClusteringKey.name)) ∧
      (schema.columns ≠ [] →
        ∀ c ∈ layout.partition ++ layout.clustering, ∀ d ∈ layout.partition ++ layout.clustering,
          c.name = d.name → c.type = d.type)) ∧
    (schema.columns = [] → ∀ f g, (schema.renamed f g).check = .ok () ↔ schema.check = .ok ()) ∧
    (schema.columns ≠ [] → (schema.check = .ok () ↔
      ({ schema with columns := [] } : Schema).check = .ok () ∧
        (∀ key ∈ schema.partitionKeys, schema.Lists key.name key.typeName) ∧
        ∀ key ∈ schema.clusteringKeys, schema.Lists key.name key.typeName)) := by
  simp only [Schema.check_eq_ok_iff]
  refine ⟨?_, fun hcolumns => Schema.wellFormed_renamed_iff hcolumns, ?_⟩
  · intro settings layout hlayout
    obtain ⟨hcheck, _, hpartition, hclustering, _⟩ := ofSchema_eq_ok_iff.mp hlayout
    have hplaced := Schema.inPlace_clusteringColumns hcheck hclustering
    have hpartitionNames := Schema.map_name_partitionColumns hpartition
    have hclusteringNames := Schema.map_name_clusteringColumns hclustering
    refine ⟨fun i column hcolumn => ⟨?_, ?_⟩, ?_, fun name => ⟨?_, ?_⟩, ?_, fun hcolumns c hc d hd hname => ?_⟩
    · exact exists_clusteringColumn? hcolumn
    · exact clusteringColumn?_name_iff hplaced hcolumn
    · rw [forall_clusteringColumn?_name_iff hplaced]
      exact hclusteringNames.nodup_iff
    · rw [Schema.isPartitionKey_iff, hpartitionNames.mem_iff]
    · rw [Schema.isClusteringKey_iff, hclusteringNames.mem_iff]
    · simp only [Schema.isPartitionKey_iff, Schema.isClusteringKey_iff, not_and]
      rfl
    · exact (Schema.check_eq_ok_iff.mp hcheck).type_eq_of_name_eq hcolumns hpartition hclustering hc hd hname
  · intro hcolumns
    rw [Schema.wellFormed_iff_lists, imp_iff_right hcolumns]

/-- The clustering columns have names of their own and are all found. One of them has the name and so the type of the
    partition column. Without its list of columns, the schema may give that name to all of its keys. -/
theorem lookup_finds_first_of_name_of_listed_columns :
    let schema : Schema := {
      keyspace := "ks"
      table := "logs"
      partitionKeys := [⟨"id", "int", 0⟩]
      clusteringKeys := [⟨"id", "integer", 1, "ASC"⟩, ⟨"day", "date", 0, "DESC"⟩]
      columns := [⟨"day", "date"⟩, ⟨"id", "INT"⟩] }
    let unlisted : Schema := { schema with columns := [] }
    let repeated : Schema := {
      keyspace := "ks"
      table := "logs"
      partitionKeys := [⟨"id", "int", 0⟩]
      clusteringKeys := [⟨"id", "integer", 1, "ASC"⟩, ⟨"id", "date", 0, "DESC"⟩] }
    let id := Column.ofClustering "ks" "logs" "id" .int .asc 1
    let layout : KeyLayout := {
      partition := [.ofPartition "ks" "logs" "id" .int 0]
      clustering := [.ofClustering "ks" "logs" "day" .date .desc 0, id]
      settings := {} }
    ofSchema schema {} = .ok layout ∧ schema.columns ≠ [] ∧
      (∀ column ∈ layout.clustering, layout.clusteringColumn? column.name = some column) ∧
      (∀ c ∈ layout.partition, c.name = id.name → c.type = id.type) ∧
      ¬ (∀ name, ¬ (schema.isPartitionKey name ∧ schema.isClusteringKey name)) ∧
      unlisted.check = .ok () ∧ repeated.check = .ok () := by
  intro schema unlisted repeated id layout
  have hlayout : ofSchema schema {} = .ok layout := by
    refine ofSchema_eq_ok_iff.mpr ⟨?_, rfl, ?_, ?_, rfl⟩ <;> decide +kernel
  have hcolumns : schema.columns ≠ [] := by decide
  obtain ⟨hlookup, _, hlisted⟩ := lookup_finds_first_of_name schema
  obtain ⟨_, hfound, _, hkinds, htypes⟩ := hlookup {} layout hlayout
  have hunlisted := ((hlisted hcolumns).mp (ofSchema_eq_ok_iff.mp hlayout).1).1
  have hrepeated := (lookup_finds_first_of_name unlisted).2.1 rfl (fun _ => "id") fun _ => "id"
  refine ⟨hlayout, hcolumns, hfound.mpr (by decide), fun c hc => ?_, mt hkinds.mp fun hdisjoint => ?_, hunlisted,
    hrepeated.mpr hunlisted⟩
  · exact htypes hcolumns c (List.mem_append_left _ hc) id (by decide)
  · exact hdisjoint (List.mem_singleton_self "id") List.mem_cons_self

/-- The name of the partition key names both clustering keys too. The schema passes its check, and the lookup misses the
    second clustering column. -/
theorem lookup_misses_column_of_repeated_name :
    let schema : Schema := {
      keyspace := "ks"
      table := "logs"
      partitionKeys := [⟨"id", "uuid", 0⟩]
      clusteringKeys := [⟨"id", "int", 0, "ASC"⟩, ⟨"id", "text", 1, "ASC"⟩] }
    let column := Column.ofClustering "ks" "logs" "id" .text .asc 1
    schema.check = .ok () ∧
      (∃ layout, ofSchema schema {} = .ok layout ∧ layout.clustering[1]? = some column ∧
        layout.clusteringColumn? column.name ≠ some column) ∧
      schema.isPartitionKey "id" ∧ schema.isClusteringKey "id" := by
  intro schema column
  let layout : KeyLayout := {
    partition := [.ofPartition "ks" "logs" "id" .uuid 0]
    clustering := [.ofClustering "ks" "logs" "id" .int .asc 0, column]
    settings := {} }
  have hcheck : schema.check = .ok () := by decide +kernel
  have hlayout : ofSchema schema {} = .ok layout := by
    refine ofSchema_eq_ok_iff.mpr ⟨hcheck, rfl, ?_, ?_, rfl⟩ <;> decide +kernel
  exact ⟨hcheck, ⟨layout, hlayout, rfl, by decide⟩, by decide, by decide⟩

end KeyLayout

end ClusteringKeys
