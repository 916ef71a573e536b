import ClusteringKeys.Proofs.Elements
import Mathlib

namespace ClusteringKeys

/-- The second column may come after the first one in elements, and without `gaps` it is the very next column. -/
def Column.Ascend (gaps : Bool) (c d : Column) : Prop :=
  c.kind = d.kind ∧ c.position < d.position ∧ (gaps = false → c.position.toNat + 1 = d.position.toNat)

theorem Column.ascend_of_isFollowedBy {c d : Column} (h : c.isFollowedBy d) (gaps : Bool) : Ascend gaps c d := by
  obtain ⟨hkind, hnext⟩ := isFollowedBy_iff.mp h
  exact ⟨hkind, UInt64.lt_iff_toNat_lt.mpr (by omega), fun _ => hnext⟩

namespace Elements

/-- The elements that the layout of a table makes from values. -/
inductive MadeBy (layout : KeyLayout) : Elements → Prop where
  | leading {values : List Value} {e : Elements} : leading layout values = .ok e → MadeBy layout e
  | slice {start : UInt64} {values : List Value} {e : Elements} : slice layout start values = .ok e → MadeBy layout e
  | sliceSerialized {start : UInt64} {values : List Bytes} {e : Elements} :
    sliceSerialized layout start values = .ok e → MadeBy layout e
  | leadingBound {values : List Value} {marker : Marker} {e : Elements} :
    leadingBound layout values marker = .ok e → MadeBy layout e
  | partitionKey {values : List Value} {e : Elements} : partitionKey layout values = .ok e → MadeBy layout e

/-- What a layout makes stores a key of a run of the columns of one part. -/
theorem MadeBy.exists_key {layout : KeyLayout} {e : Elements} (h : MadeBy layout e) :
    ∃ k : Key, k.elements = e ∧ (k.columns <:+: layout.partition ∨ k.columns <:+: layout.clustering) := by
  have hrun : ∀ start count, (layout.clustering.drop start).take count <:+: layout.clustering := fun start count =>
    (List.take_prefix count _).isInfix.trans (List.drop_suffix start _).isInfix
  cases h with
  | leading he =>
    rw [leading_eq] at he
    obtain ⟨k, hk, rfl⟩ := map_eq_ok_iff.mp he
    refine ⟨k, rfl, .inr ?_⟩
    rw [(KeyLayout.leading_eq_ok hk).2.1]
    exact (List.take_prefix _ _).isInfix
  | slice he =>
    rw [slice_eq] at he
    obtain ⟨k, hk, rfl⟩ := map_eq_ok_iff.mp he
    refine ⟨k, rfl, .inr ?_⟩
    rw [(KeyLayout.slice_eq_ok hk).2.1]
    exact hrun _ _
  | sliceSerialized he =>
    rw [sliceSerialized_eq] at he
    obtain ⟨k, hk, rfl⟩ := map_eq_ok_iff.mp he
    refine ⟨k, rfl, .inr ?_⟩
    rw [KeyLayout.columns_of_sliceSerialized hk]
    exact hrun _ _
  | leadingBound he =>
    rw [leadingBound_eq] at he
    obtain ⟨k, hk, rfl⟩ := map_eq_ok_iff.mp he
    obtain ⟨k', hk', rfl⟩ := bind_pure_eq_ok_iff.mp hk
    refine ⟨_, rfl, .inr ?_⟩
    change k'.columns <:+: _
    rw [(KeyLayout.leading_eq_ok hk').2.1]
    exact (List.take_prefix _ _).isInfix
  | partitionKey he =>
    rw [partitionKey_eq] at he
    obtain ⟨k, hk, rfl⟩ := map_eq_ok_iff.mp he
    refine ⟨k, rfl, .inl ?_⟩
    rw [KeyLayout.columns_of_partitionKey hk]

/-- The elements that the operations make, one after the other, with the layouts of any tables. Elements of lists as
    they are given, which may leave columns out, are among them only with `gaps`. -/
inductive Made (gaps : Bool) : Elements → Prop where
  | empty : Made gaps empty
  | default : Made gaps default
  | ofColumn (column : Column) (value : Bytes) : Made gaps (ofColumn column value)
  | of {columns : List Column} {values : List Bytes} {e : Elements} : gaps → of columns values = .ok e → Made gaps e
  | bottom {e : Elements} : Made gaps e → Made gaps e.bottom
  | top {e : Elements} : Made gaps e → Made gaps e.top
  | take {e : Elements} (n : Nat) : Made gaps e → Made gaps (e.take n)
  | extend {a b e : Elements} : Made gaps a → Made gaps b → a.extend b = .ok e → Made gaps e
  | layout {schema : Schema} {settings : Settings} {layout : KeyLayout} {e : Elements} :
    KeyLayout.ofSchema schema settings = .ok layout → MadeBy layout e → Made gaps e

/-- Whatever is made stores a key, and only lists that are let in leave out columns of it. -/
theorem Made.exists_key {gaps : Bool} {e : Elements} (h : e.Made gaps) :
    ∃ k : Key, k.elements = e ∧ k.columns.IsChain (Column.Ascend gaps) := by
  induction h with
  | empty | default => exact ⟨.empty, rfl, .nil⟩
  | ofColumn column value => exact ⟨.ofColumn column value, rfl, .singleton column⟩
  | of hgaps he =>
    rw [of_eq] at he
    obtain ⟨k, hk, rfl⟩ := map_eq_ok_iff.mp he
    obtain ⟨_, hascend, hcolumns, _⟩ := Key.ofColumns_eq_ok_iff.mp hk
    refine ⟨k, rfl, ?_⟩
    rw [hcolumns]
    exact hascend.imp fun c d hcd => ⟨hcd.1, hcd.2, fun hnone => absurd hgaps (hnone ▸ Bool.false_ne_true)⟩
  | bottom _ ih =>
    obtain ⟨k, rfl, hk⟩ := ih
    exact ⟨k.bottom, rfl, hk⟩
  | top _ ih =>
    obtain ⟨k, rfl, hk⟩ := ih
    exact ⟨k.top, rfl, hk⟩
  | take n _ ih =>
    obtain ⟨k, rfl, hk⟩ := ih
    refine ⟨k.take n, (k.take_elements n).symm, ?_⟩
    rw [Key.columns_take]
    exact hk.take n
  | extend _ _ he iha ihb =>
    obtain ⟨a, rfl, ha⟩ := iha
    obtain ⟨b, rfl, hb⟩ := ihb
    rw [Key.extend_elements] at he
    obtain ⟨k, hk, rfl⟩ := map_eq_ok_iff.mp he
    obtain ⟨_, hmeet, _⟩ := Key.extend_eq_ok_iff.mp hk
    refine ⟨k, rfl, ?_⟩
    rw [Key.columns_of_extend hk, List.isChain_append]
    refine ⟨ha, hb, ?_⟩
    intro last hlast first hfirst
    exact Column.ascend_of_isFollowedBy (hmeet last hlast first hfirst) _
  | layout hlayout he =>
    -- The columns of a part follow one another, since the schema passed its check.
    obtain ⟨hcheck, _, hpartition, hclustering, _⟩ := KeyLayout.ofSchema_eq_ok_iff.mp hlayout
    obtain ⟨k, rfl, hrun⟩ := he.exists_key
    refine ⟨k, rfl, List.IsChain.imp (fun c d hfollowed => Column.ascend_of_isFollowedBy hfollowed _) ?_⟩
    rcases hrun with hrun | hrun
    · exact List.IsChain.infix (Schema.inPlace_partitionColumns hcheck hpartition).isChain hrun
    · exact List.IsChain.infix (Schema.inPlace_clusteringColumns hcheck hclustering).isChain hrun

private theorem kind?_eq_of_mem {e : Elements} (hkinds : e.columns.IsChain fun c d => c.kind = d.kind) {c : Column}
    (hc : c ∈ e.columns) : e.kind? = some c.kind := by
  rw [kind?]
  cases hcolumns : e.columns with
  | nil =>
    rw [hcolumns] at hc
    cases hc
  | cons first rest =>
    rw [hcolumns] at hc hkinds
    rcases List.mem_cons.mp hc with rfl | hc
    · rfl
    · exact congrArg some ((List.pairwise_cons.mp hkinds.pairwise).1 c hc)

/-- However elements were made, they have as many values as columns, though the two are kept apart. The columns are of
    one kind and in ascending order of position. Without lists that leave columns out, each column stands right after
    the one before it. -/
theorem Made.columns_ascend {gaps : Bool} {e : Elements} (h : e.Made gaps) :
    e.columns.length = e.values.length ∧
    (∀ c ∈ e.columns, e.kind? = some c.kind) ∧
    (e.columns.Pairwise fun c d => c.position < d.position) ∧
    (gaps = false → e.columns.IsChain fun c d => c.position.toNat + 1 = d.position.toNat) := by
  obtain ⟨k, hk, hascend⟩ := h.exists_key
  have hlength := exists_elements_iff.mp ⟨k, hk⟩
  obtain rfl := hk
  have hkinds := hascend.imp (S := fun c d => c.kind = d.kind) fun _ _ hcd => hcd.1
  have hpositions := hascend.imp (S := fun c d => c.position < d.position) fun _ _ hcd => hcd.2.1
  exact ⟨hlength, fun c => kind?_eq_of_mem hkinds, hpositions.pairwise,
    fun hgaps => hascend.imp fun _ _ hcd => hcd.2.2 hgaps⟩

/-- The schema declares its clustering columns in another order than that of their positions. -/
theorem Made.columns_ascend_of_year_month :
    let schema : Schema := {
      keyspace := "ks"
      table := "logs"
      partitionKeys := [⟨"source", "uuid", 0⟩]
      clusteringKeys := [⟨"month", "tinyint", 1, "ASC"⟩, ⟨"year", "int", 0, "DESC"⟩] }
    let year := Column.ofClustering "ks" "logs" "year" .int .desc 0
    let month := Column.ofClustering "ks" "logs" "month" .tinyint .asc 1
    let layout : KeyLayout := {
      partition := [.ofPartition "ks" "logs" "source" .uuid 0]
      clustering := [year, month]
      settings := {} }
    ∃ a b e, KeyLayout.ofSchema schema {} = .ok layout ∧ leading layout [.int 2024] = .ok a ∧
      slice layout 1 [.tinyint 3] = .ok b ∧ a.extend b = .ok e ∧ e.top.Made false ∧
      e.top = ⟨[year, month], [[0, 0, 7, 232], [3]], .top⟩ ∧ e.top.columns.length = e.top.values.length ∧
      e.top.columns.IsChain fun c d => c.position.toNat + 1 = d.position.toNat := by
  intro schema year month layout
  have hlayout : KeyLayout.ofSchema schema {} = .ok layout := by
    refine KeyLayout.ofSchema_eq_ok_iff.mpr ⟨?_, rfl, ?_, ?_, rfl⟩ <;> decide +kernel
  let a : Elements := ⟨[year], [[0, 0, 7, 232]], .regular⟩
  let b : Elements := ⟨[month], [[3]], .regular⟩
  let e : Elements := ⟨[year, month], [[0, 0, 7, 232], [3]], .regular⟩
  have ha : leading layout [.int 2024] = .ok a := rfl
  have hb : slice layout 1 [.tinyint 3] = .ok b := rfl
  have he : a.extend b = .ok e := rfl
  have hmade : e.top.Made false :=
    .top (.extend (.layout hlayout (.leading ha)) (.layout hlayout (.slice hb)) he)
  obtain ⟨hlength, _, _, hcontiguous⟩ := Made.columns_ascend hmade
  exact ⟨a, b, e, hlayout, ha, hb, he, hmade, rfl, hlength, hcontiguous rfl⟩

end Elements

end ClusteringKeys
