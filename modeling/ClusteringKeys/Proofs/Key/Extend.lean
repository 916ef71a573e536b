import ClusteringKeys.Proofs.Key.Columns
import Mathlib

namespace ClusteringKeys

namespace Column

/-- Columns on the right may be appended to those on the left: they start right after them, or one side has none. -/
def Meet (left right : List Column) : Prop :=
  ∀ last ∈ left.getLast?, ∀ first ∈ right.head?, last.isFollowedBy first

/-- Only what stands at the seams counts, however the columns are grouped. Around a middle without columns the outer
    ones meet. -/
theorem meet_append_iff (as bs cs : List Column) :
    Meet as bs ∧ Meet (as ++ bs) cs ↔ Meet bs cs ∧ Meet as (bs ++ cs) := by
  cases bs with
  | nil => simp [Meet]
  | cons b bs => simp [Meet, and_comm]

end Column

namespace Key

theorem meet_columns_iff {a b : Key} :
    Column.Meet a.columns b.columns ↔
      ∀ last ∈ a.cells.getLast?, ∀ first ∈ b.cells.head?, last.column.isFollowedBy first.column := by
  simp [Column.Meet, columns]

/-- An extension succeeds if the left side is not a bound and the two sides meet. It then has the cells of both sides
    and the marker of the right one. -/
theorem extend_eq_ok_iff {a b k : Key} :
    a.extend b = .ok k ↔
      a.marker = .regular ∧ Column.Meet a.columns b.columns ∧ k = ⟨a.cells ++ b.cells, b.marker⟩ := by
  rw [meet_columns_iff, eq_comm (a := k)]
  by_cases hregular : a.marker = .regular
  · have hkey : a.isEndpoint = false := decide_eq_false (not_not_intro hregular)
    rw [extend, hkey, if_neg Bool.false_ne_true, and_iff_right hregular]
    cases hlast : a.cells.getLast? with
    | none => simp [List.getLast?_eq_none_iff.mp hlast]
    | some last =>
      cases hfirst : b.cells.head? with
      | none => simp [List.head?_eq_none_iff.mp hfirst]
      | some first =>
        -- Columns of different kinds are refused with an error of their own, but they do not follow one another anyway.
        by_cases hkind : last.column.kind = first.column.kind
        · by_cases hfollowed : last.column.isFollowedBy first.column
          · simp [hkind, hfollowed]
          · simp [hkind, hfollowed]
        · simp [hkind, Column.isFollowedBy]
  · have hbound : a.isEndpoint := decide_eq_true hregular
    rw [extend, if_pos hbound]
    simp [hregular]

theorem columns_of_extend {a b k : Key} (h : a.extend b = .ok k) : k.columns = a.columns ++ b.columns := by
  obtain ⟨_, _, rfl⟩ := extend_eq_ok_iff.mp h
  exact List.map_append

theorem values_of_extend {a b k : Key} (h : a.extend b = .ok k) : k.values = a.values ++ b.values := by
  obtain ⟨_, _, rfl⟩ := extend_eq_ok_iff.mp h
  exact List.map_append

theorem marker_of_extend {a b k : Key} (h : a.extend b = .ok k) : k.marker = b.marker := by
  obtain ⟨_, _, rfl⟩ := extend_eq_ok_iff.mp h
  rfl

/-- An extension begins with what it extends. -/
theorem take_of_extend {a b k : Key} (h : a.extend b = .ok k) : k.take a.length = a := by
  obtain ⟨hregular, _, rfl⟩ := extend_eq_ok_iff.mp h
  rw [take, length, List.take_left, ← hregular]

private theorem exists_extend_iff {a b : Key} {P : Key → Prop} :
    (∃ ab, a.extend b = .ok ab ∧ P ab) ↔
      a.marker = .regular ∧ Column.Meet a.columns b.columns ∧ P ⟨a.cells ++ b.cells, b.marker⟩ := by
  constructor
  · rintro ⟨ab, hab, hP⟩
    obtain ⟨hregular, hmeet, rfl⟩ := extend_eq_ok_iff.mp hab
    exact ⟨hregular, hmeet, hP⟩
  · rintro ⟨hregular, hmeet, hP⟩
    exact ⟨_, extend_eq_ok_iff.mpr ⟨hregular, hmeet, rfl⟩, hP⟩

/-- Three keys are joined alike in either grouping. -/
theorem extend_assoc {a b c k : Key} :
    (∃ ab, a.extend b = .ok ab ∧ ab.extend c = .ok k) ↔ ∃ bc, b.extend c = .ok bc ∧ a.extend bc = .ok k := by
  have hcolumns : ∀ (x y : Key) (m : Marker), columns ⟨x.cells ++ y.cells, m⟩ = x.columns ++ y.columns :=
    fun x y m => List.map_append
  have hmeet := Column.meet_append_iff a.columns b.columns c.columns
  rw [exists_extend_iff, exists_extend_iff, extend_eq_ok_iff, extend_eq_ok_iff, hcolumns, hcolumns,
    List.append_assoc]
  constructor
  · rintro ⟨ha, hab, hb, habc, hk⟩
    obtain ⟨hbc, habc⟩ := hmeet.mp ⟨hab, habc⟩
    exact ⟨hb, hbc, ha, habc, hk⟩
  · rintro ⟨hb, hbc, ha, habc, hk⟩
    obtain ⟨hab, habc⟩ := hmeet.mpr ⟨hbc, habc⟩
    exact ⟨ha, hab, hb, habc, hk⟩

theorem compare_extend {a b c ab ac : Key} (hab : a.extend b = .ok ab) (hac : a.extend c = .ok ac) :
    ab.compare ac = b.compare c := by
  obtain ⟨_, _, rfl⟩ := extend_eq_ok_iff.mp hab
  obtain ⟨_, _, rfl⟩ := extend_eq_ok_iff.mp hac
  exact compareCells_append b.marker c.marker a.cells b.cells c.cells

/-- Extension can be grouped either way: both ways fail, or both make the same key of all columns and values, with the
    marker of the last part. It keeps the order: what is appended to a key decides between the extensions. Parts may be
    empty or bounds, and values ill-formed. -/
theorem extend_groups_and_keeps_order (a b c : Key) :
    (∀ k, (∃ ab, a.extend b = .ok ab ∧ ab.extend c = .ok k) ↔
      ∃ bc, b.extend c = .ok bc ∧ a.extend bc = .ok k) ∧
    (∀ ab k, a.extend b = .ok ab → ab.extend c = .ok k →
      k.columns = a.columns ++ b.columns ++ c.columns ∧ k.values = a.values ++ b.values ++ c.values ∧
        k.marker = c.marker) ∧
    (∀ ab ac, a.extend b = .ok ab → a.extend c = .ok ac → ab.compare ac = b.compare c) := by
  refine ⟨fun k => extend_assoc, ?_, fun ab ac => compare_extend⟩
  intro ab k hab hk
  refine ⟨?_, ?_, marker_of_extend hk⟩
  · rw [columns_of_extend hk, columns_of_extend hab]
  · rw [values_of_extend hk, values_of_extend hab]

/-- The last part is a bound without columns. It makes bounds of the other parts. -/
theorem extend_groups_and_keeps_order_of_year_month :
    let a := ofColumn (.ofClustering "ks" "logs" "year" .int .desc 0) [7, 232]
    let b := ofColumn (.ofClustering "ks" "logs" "month" .tinyint .asc 1) [3]
    let c := empty.top
    ∃ ab k ac bc, a.extend b = .ok ab ∧ ab.extend c = .ok k ∧ a.extend c = .ok ac ∧ b.extend c = .ok bc ∧
      a.extend bc = .ok k ∧ k.values = [[7, 232], [3]] ∧ k.marker = .top ∧ ab.compare ac = .lt := by
  intro a b c
  let ab : Key := ⟨a.cells ++ b.cells, .regular⟩
  have hab : a.extend b = .ok ab := rfl
  have hk : ab.extend c = .ok ab.top := rfl
  have hac : a.extend c = .ok a.top := rfl
  obtain ⟨hassoc, hjoined, hcompare⟩ := extend_groups_and_keeps_order a b c
  obtain ⟨bc, hbc, hk'⟩ := (hassoc ab.top).mp ⟨ab, hab, hk⟩
  obtain ⟨_, hvalues, hmarker⟩ := hjoined ab ab.top hab hk
  have hbelow : b.compare c = .lt := rfl
  exact ⟨ab, ab.top, a.top, bc, hab, hk, hac, hbc, hk', hvalues, hmarker,
    (hcompare ab a.top hab hac).trans hbelow⟩

end Key

end ClusteringKeys
