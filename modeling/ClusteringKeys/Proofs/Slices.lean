import ClusteringKeys.Proofs.Admission
import ClusteringKeys.Proofs.Key.Extend
import Mathlib

namespace ClusteringKeys

theorem forall₂_append_iff {α β : Type} {R : α → β → Prop} {as as' : List α} {bs bs' : List β}
    (hlength : as.length = bs.length) :
    List.Forall₂ R (as ++ as') (bs ++ bs') ↔ List.Forall₂ R as bs ∧ List.Forall₂ R as' bs' := by
  constructor
  · intro h
    have hfirst := List.forall₂_take_append _ _ _ h
    have hrest := List.forall₂_drop_append _ _ _ h
    rw [← hlength, List.take_left] at hfirst
    rw [← hlength, List.drop_left] at hrest
    exact ⟨hfirst, hrest⟩
  · rintro ⟨hfirst, hrest⟩
    exact List.rel_append hfirst hrest

/-- Values are stored in a run of columns if those in its first part and those in the rest are. -/
theorem StoredIn.append_iff {columns columns' : List Column} {xs ys : List Value} {bytes : List Bytes}
    (hlength : columns.length = xs.length) :
    StoredIn (columns ++ columns') (xs ++ ys) bytes ↔
      ∃ bs bs', StoredIn columns xs bs ∧ StoredIn columns' ys bs' ∧ bs ++ bs' = bytes := by
  induction columns generalizing xs bytes with
  | nil =>
    obtain rfl := List.length_eq_zero_iff.mp hlength.symm
    constructor
    · intro h
      exact ⟨[], bytes, .nil, h, rfl⟩
    · rintro ⟨_, _, ⟨⟩, h, rfl⟩
      exact h
  | cons column columns ih =>
    cases xs with
    | nil => cases hlength
    | cons x xs =>
      have hrest (bytes : List Bytes) : StoredIn (columns ++ columns') (xs ++ ys) bytes ↔ _ :=
        ih (Nat.succ.inj hlength)
      constructor
      · rintro (_ | ⟨hx, h⟩)
        obtain ⟨bs, bs', hxs, hys, rfl⟩ := (hrest _).mp h
        exact ⟨_, bs', .cons hx hxs, hys, rfl⟩
      · rintro ⟨_, bs', _ | ⟨hx, hxs⟩, hys, rfl⟩
        exact .cons hx ((hrest _).mpr ⟨_, bs', hxs, hys, rfl⟩)

namespace KeyLayout

variable {layout : KeyLayout} {start next : UInt64}

/-- A run of so many columns from one position on, if the layout has them, ends in front of the other. -/
def RunEndsAt (layout : KeyLayout) (start : UInt64) (count : Nat) (next : UInt64) : Prop :=
  start.toNat + count ≤ layout.clustering.length → next.toNat = start.toNat + count

theorem run_add (layout : KeyLayout) (start m n : Nat) :
    (layout.clustering.drop start).take (m + n) =
      (layout.clustering.drop start).take m ++ (layout.clustering.drop (start + m)).take n := by
  rw [List.take_add, List.drop_drop]

/-- Columns in place meet wherever they are split. -/
theorem meet_run (hplaced : Column.InPlace .clustering layout.clustering) (start m n : Nat) :
    Column.Meet ((layout.clustering.drop start).take m) ((layout.clustering.drop (start + m)).take n) := by
  have hchain := (hplaced.isChain.drop start).take (m + n)
  rw [run_add] at hchain
  exact (List.isChain_append.mp hchain).2.2

section Serialized

variable {xs ys : List Bytes}

theorem exists_sliceSerialized_append_iff (hplaced : Column.InPlace .clustering layout.clustering)
    (hnext : layout.RunEndsAt start xs.length next) :
    (∃ k, layout.sliceSerialized start (xs ++ ys) = .ok k) ↔
      (∃ a, layout.sliceSerialized start xs = .ok a) ∧ ∃ b, layout.sliceSerialized next ys = .ok b := by
  simp only [exists_sliceSerialized_iff hplaced, List.length_append, run_add]
  by_cases hfits : start.toNat + xs.length ≤ layout.clustering.length
  · rw [hnext hfits, forall₂_append_iff (length_run hfits), Nat.add_assoc, and_iff_right hfits]
    exact and_left_comm
  · exact iff_of_false (fun h => hfits (by omega)) fun h => hfits h.1.1

theorem extend_of_sliceSerialized (hplaced : Column.InPlace .clustering layout.clustering)
    (hnext : layout.RunEndsAt start xs.length next) {k a b : Key}
    (hk : layout.sliceSerialized start (xs ++ ys) = .ok k) (ha : layout.sliceSerialized start xs = .ok a)
    (hb : layout.sliceSerialized next ys = .ok b) : a.extend b = .ok k := by
  obtain ⟨_, hbuild⟩ := sliceSerialized_eq_ok_iff.mp hk
  obtain ⟨hfits, hbuildA⟩ := sliceSerialized_eq_ok_iff.mp ha
  obtain ⟨_, hbuildB⟩ := sliceSerialized_eq_ok_iff.mp hb
  obtain ⟨_, _, hcolumns, hvalues, hregular⟩ := build_eq_ok_iff.mp hbuild
  obtain ⟨_, _, hcolumnsA, hvaluesA, hregularA⟩ := build_eq_ok_iff.mp hbuildA
  obtain ⟨_, _, hcolumnsB, hvaluesB, hregularB⟩ := build_eq_ok_iff.mp hbuildB
  rw [hnext hfits] at hcolumnsB
  rw [List.length_append, run_add, ← hcolumnsA, ← hcolumnsB] at hcolumns
  have hmeet : Column.Meet a.columns b.columns := by
    rw [hcolumnsA, hcolumnsB]
    exact meet_run hplaced _ _ _
  have hab : a.extend b = .ok ⟨a.cells ++ b.cells, b.marker⟩ := Key.extend_eq_ok_iff.mpr ⟨hregularA, hmeet, rfl⟩
  rw [hab, Except.ok.injEq, Key.eq_iff, Key.columns_of_extend hab, Key.values_of_extend hab, hcolumns, hvaluesA,
    hvaluesB, hvalues]
  exact ⟨rfl, rfl, hregularB.trans hregular.symm⟩

end Serialized

section Values

variable {xs ys : List Value}

/-- Values that are stored in two successive runs of columns make the key of their stored forms together. -/
theorem slice_append_eq (hnext : next.toNat = start.toNat + xs.length)
    (hfits : start.toNat + xs.length ≤ layout.clustering.length) {bs bs' : List Bytes}
    (hxs : StoredIn ((layout.clustering.drop start.toNat).take xs.length) xs bs)
    (hys : StoredIn ((layout.clustering.drop next.toNat).take ys.length) ys bs') :
    layout.slice start (xs ++ ys) = layout.sliceSerialized start (bs ++ bs') := by
  apply slice_eq_sliceSerialized
  rw [List.length_append, run_add, ← hnext]
  exact (StoredIn.append_iff (length_run hfits)).mpr ⟨bs, bs', hxs, hys, rfl⟩

theorem length_le_of_slice {k : Key} (h : layout.slice start xs = .ok k) :
    start.toNat + xs.length ≤ layout.clustering.length := by
  obtain ⟨_, hstored, hk⟩ := slice_eq_ok_iff.mp h
  rw [← hstored.length_bytes]
  exact (sliceSerialized_eq_ok_iff.mp hk).1

theorem exists_slice_append_iff (hplaced : Column.InPlace .clustering layout.clustering)
    (hnext : layout.RunEndsAt start xs.length next) :
    (∃ k, layout.slice start (xs ++ ys) = .ok k) ↔
      (∃ a, layout.slice start xs = .ok a) ∧ ∃ b, layout.slice next ys = .ok b := by
  constructor
  · rintro ⟨k, hk⟩
    have hwhole := length_le_of_slice hk
    rw [List.length_append] at hwhole
    have hfits : start.toNat + xs.length ≤ layout.clustering.length := by omega
    obtain ⟨bytes, hstored, hk⟩ := slice_eq_ok_iff.mp hk
    rw [List.length_append, run_add, ← hnext hfits] at hstored
    obtain ⟨bs, bs', hxs, hys, rfl⟩ := (StoredIn.append_iff (length_run hfits)).mp hstored
    rw [← hxs.length_bytes] at hnext
    obtain ⟨⟨a, ha⟩, b, hb⟩ := (exists_sliceSerialized_append_iff hplaced hnext).mp ⟨k, hk⟩
    exact ⟨⟨a, slice_eq_ok_iff.mpr ⟨bs, hxs, ha⟩⟩, b, slice_eq_ok_iff.mpr ⟨bs', hys, hb⟩⟩
  · rintro ⟨⟨a, ha⟩, b, hb⟩
    have hfits := length_le_of_slice ha
    obtain ⟨bs, hxs, ha⟩ := slice_eq_ok_iff.mp ha
    obtain ⟨bs', hys, hb⟩ := slice_eq_ok_iff.mp hb
    rw [slice_append_eq (hnext hfits) hfits hxs hys]
    rw [← hxs.length_bytes] at hnext
    exact (exists_sliceSerialized_append_iff hplaced hnext).mpr ⟨⟨a, ha⟩, b, hb⟩

theorem extend_of_slice (hplaced : Column.InPlace .clustering layout.clustering)
    (hnext : layout.RunEndsAt start xs.length next) {k a b : Key}
    (hk : layout.slice start (xs ++ ys) = .ok k) (ha : layout.slice start xs = .ok a)
    (hb : layout.slice next ys = .ok b) : a.extend b = .ok k := by
  have hfits := length_le_of_slice ha
  obtain ⟨bs, hxs, ha⟩ := slice_eq_ok_iff.mp ha
  obtain ⟨bs', hys, hb⟩ := slice_eq_ok_iff.mp hb
  rw [slice_append_eq (hnext hfits) hfits hxs hys] at hk
  rw [← hxs.length_bytes] at hnext
  exact extend_of_sliceSerialized hplaced hnext hk ha hb

end Values

/-- There are fewer columns than positions, so the position after a run does not wrap around. -/
private theorem runEndsAt_add (hsize : layout.clustering.length < UInt64.size) (start : UInt64) (count : Nat) :
    layout.RunEndsAt start count (start + UInt64.ofNat count) := by
  intro hfits
  rw [UInt64.toNat_add, UInt64.toNat_ofNat', Nat.add_mod_mod]
  exact Nat.mod_eq_of_lt (hfits.trans_lt hsize)

/-- A key can be made in parts. Values from a position on make a key if at any place the values in front of it and those
    after it do, and the two then join to that key, whose beginning is the first of them. One part or both may be empty,
    and what does not fit is refused with and without the split. -/
theorem slices_join {schema : Schema} {settings : Settings} (hlayout : ofSchema schema settings = .ok layout)
    (hsize : layout.clustering.length < UInt64.size) (start : UInt64) :
    (∀ xs ys : List Value,
      ((∃ k, layout.slice start (xs ++ ys) = .ok k) ↔
        (∃ a, layout.slice start xs = .ok a) ∧ ∃ b, layout.slice (start + .ofNat xs.length) ys = .ok b) ∧
      ∀ k a b, layout.slice start (xs ++ ys) = .ok k → layout.slice start xs = .ok a →
        layout.slice (start + .ofNat xs.length) ys = .ok b → a.extend b = .ok k ∧ k.take xs.length = a) ∧
    (∀ xs ys : List Bytes,
      ((∃ k, layout.sliceSerialized start (xs ++ ys) = .ok k) ↔
        (∃ a, layout.sliceSerialized start xs = .ok a) ∧
          ∃ b, layout.sliceSerialized (start + .ofNat xs.length) ys = .ok b) ∧
      ∀ k a b, layout.sliceSerialized start (xs ++ ys) = .ok k → layout.sliceSerialized start xs = .ok a →
        layout.sliceSerialized (start + .ofNat xs.length) ys = .ok b → a.extend b = .ok k ∧ k.take xs.length = a) := by
  obtain ⟨hcheck, _, _, hclustering, _⟩ := ofSchema_eq_ok_iff.mp hlayout
  have hplaced := Schema.inPlace_clusteringColumns hcheck hclustering
  refine ⟨fun xs ys => ⟨?_, fun k a b hk ha hb => ?_⟩, fun xs ys => ⟨?_, fun k a b hk ha hb => ?_⟩⟩
  · exact exists_slice_append_iff hplaced (runEndsAt_add hsize _ _)
  · have hab := extend_of_slice hplaced (runEndsAt_add hsize _ _) hk ha hb
    have hlength : a.length = xs.length := (slice_eq_ok ha).2.2.length_eq.symm
    exact ⟨hab, hlength ▸ Key.take_of_extend hab⟩
  · exact exists_sliceSerialized_append_iff hplaced (runEndsAt_add hsize _ _)
  · have hab := extend_of_sliceSerialized hplaced (runEndsAt_add hsize _ _) hk ha hb
    have hvalues := values_of_sliceSerialized ha
    have hlength : a.length = xs.length := by rw [← hvalues, Key.length_values]
    exact ⟨hab, hlength ▸ Key.take_of_extend hab⟩

/-- The last column can be made apart. From the last position on a value is refused, although the position after it
    wraps around to the first. -/
theorem slices_join_of_year_month :
    let schema : Schema := {
      keyspace := "ks"
      table := "logs"
      partitionKeys := [⟨"source", "uuid", 0⟩]
      clusteringKeys := [⟨"month", "tinyint", 1, "ASC"⟩, ⟨"year", "int", 0, "DESC"⟩] }
    let year := Column.ofClustering "ks" "logs" "year" .int .desc 0
    let month := Column.ofClustering "ks" "logs" "month" .tinyint .asc 1
    let layout : KeyLayout := {
      partition := [.ofPartition "ks" "logs" "source" .uuid 0]
      clustering := [year, month]
      settings := {} }
    ofSchema schema {} = .ok layout ∧ layout.clustering.length < UInt64.size ∧
      (∃ k a b, layout.slice 0 [.int 2024, .tinyint 3] = .ok k ∧ layout.slice 0 [.int 2024] = .ok a ∧
        layout.slice 1 [.tinyint 3] = .ok b ∧ k.columns = [year, month] ∧ k.values = [[0, 0, 7, 232], [3]] ∧
        a.extend b = .ok k ∧ k.take 1 = a) ∧
      (∃ b, layout.slice 0 [.int 2024] = .ok b) ∧
      ¬ ∃ k, layout.slice 0xFFFFFFFFFFFFFFFF [.tinyint 3, .int 2024] = .ok k := by
  intro schema year month layout
  have hlayout : ofSchema schema {} = .ok layout := by
    refine ofSchema_eq_ok_iff.mpr ⟨?_, rfl, ?_, ?_, rfl⟩ <;> decide +kernel
  have hsize : layout.clustering.length < UInt64.size := by decide
  obtain ⟨hparts, hjoin⟩ := (slices_join hlayout hsize 0).1 [.int 2024] [.tinyint 3]
  obtain ⟨hwrapped, _⟩ := (slices_join hlayout hsize 0xFFFFFFFFFFFFFFFF).1 [.tinyint 3] [.int 2024]
  let k : Key := ⟨[⟨year, [0, 0, 7, 232]⟩, ⟨month, [3]⟩], .regular⟩
  have hk : layout.slice 0 [.int 2024, .tinyint 3] = .ok k := rfl
  obtain ⟨⟨a, ha⟩, b, hb⟩ := hparts.mp ⟨k, hk⟩
  obtain ⟨hab, htake⟩ := hjoin k a b hk ha hb
  refine ⟨hlayout, hsize, ⟨k, a, b, hk, ha, hb, rfl, rfl, hab, htake⟩, ⟨a, ha⟩, ?_⟩
  intro hwhole
  obtain ⟨⟨c, hc⟩, _⟩ := hwrapped.mp hwhole
  exact absurd (length_le_of_slice hc) (by decide)

end KeyLayout

end ClusteringKeys
