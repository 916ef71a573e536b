import ClusteringKeys.Proofs.Key.Columns
import Mathlib

namespace ClusteringKeys.Key

/-- Cells that compare both ways as not greater are the same, and what is left of the keys decides. -/
private theorem isLE_then_both_iff {a b : Cell} {o o' : Ordering} :
    ((a.compare b).then o).isLE ∧ ((b.compare a).then o').isLE ↔ a = b ∧ o.isLE ∧ o'.isLE := by
  constructor
  · rintro ⟨hab, hba⟩
    obtain ⟨hcellAB, hrestAB⟩ := Ordering.isLE_then_iff_and.mp hab
    obtain ⟨hcellBA, hrestBA⟩ := Ordering.isLE_then_iff_and.mp hba
    obtain rfl : a = b := Std.LawfulEqCmp.eq_of_compare (Std.OrientedCmp.isLE_antisymm hcellAB hcellBA)
    have hself : a.compare a = .eq := Std.ReflCmp.compare_self
    rw [hself] at hrestAB hrestBA
    exact ⟨rfl, hrestAB.resolve_left nofun, hrestBA.resolve_left nofun⟩
  · rintro ⟨rfl, ho, ho'⟩
    have hself : a.compare a = .eq := Std.ReflCmp.compare_self
    rw [hself]
    exact ⟨ho, ho'⟩

/-- A key or bound that lacks some of the cells lies below all keys that have them or above them all, so it is on the
    far side of one of their bounds. -/
private theorem compareCells_bottom_top_iff (m : Marker) (cells others : List Cell) :
    (compareCells .bottom m cells others).isLE ∧ (compareCells m .top others cells).isLE ↔ cells <+: others := by
  induction cells generalizing others with
  | nil =>
    cases others with
    | nil => exact iff_of_true (by cases m <;> decide) List.nil_prefix
    | cons other others => exact iff_of_true ⟨rfl, rfl⟩ List.nil_prefix
  | cons cell cells ih =>
    cases others with
    | nil =>
      refine iff_of_false ?_ (fun h => nomatch List.prefix_nil.mp h)
      rintro ⟨habove, hbelow⟩
      exact Marker.not_againstExtension_isLE_of_swap habove hbelow
    | cons other others =>
      rw [compareCells, compareCells, isLE_then_both_iff, ih, List.cons_prefix_cons]

/-- The bounds of this key, taken as a beginning of keys, have the other key or bound between them. -/
def Encloses (k x : Key) : Prop :=
  (k.bottom.compare x).isLE ∧ (x.compare k.top).isLE

theorem encloses_iff {k x : Key} : k.Encloses x ↔ k.cells <+: x.cells :=
  compareCells_bottom_top_iff x.marker k.cells x.cells

theorem encloses_iff_columns_values {k x : Key} :
    k.Encloses x ↔ x.columns.take k.length = k.columns ∧ x.values.take k.length = k.values := by
  rw [encloses_iff, List.prefix_iff_eq_take, eq_comm, ← Cell.map_column_map_value_iff, List.map_take, List.map_take]
  exact Iff.rfl

theorem Encloses.length_le {k x : Key} (h : k.Encloses x) : k.length ≤ x.length :=
  (encloses_iff.mp h).length_le

/-- The bounds of a key have between them exactly the keys and bounds that begin with its columns and values. Outside
    are its own strict beginnings with their bounds, and whatever differs from it in a column or a value. -/
theorem bounds_enclose_extensions (k x : Key) :
    (k.Encloses x ↔
      k.length ≤ x.length ∧ x.columns.take k.length = k.columns ∧ x.values.take k.length = k.values) ∧
    (∀ n < k.length, ∀ marker, ¬ k.Encloses { k.take n with marker }) ∧
    (∀ i < k.length, x.columns[i]? ≠ k.columns[i]? ∨ x.values[i]? ≠ k.values[i]? → ¬ k.Encloses x) := by
  refine ⟨?_, ?_, ?_⟩
  · rw [← encloses_iff_columns_values]
    exact ⟨fun h => ⟨h.length_le, h⟩, And.right⟩
  · intro n hn marker hencloses
    have hlength : k.length ≤ (k.cells.take n).length := hencloses.length_le
    rw [List.length_take] at hlength
    omega
  · intro i hi hdiffers hencloses
    obtain ⟨hcolumns, hvalues⟩ := encloses_iff_columns_values.mp hencloses
    rcases hdiffers with hcolumn | hvalue
    · rw [← hcolumns, List.getElem?_take_of_lt hi] at hcolumn
      exact hcolumn rfl
    · rw [← hvalues, List.getElem?_take_of_lt hi] at hvalue
      exact hvalue rfl

/-- The top of the year lies outside of the block of one of its months, although the year alone agrees with it. -/
theorem bounds_enclose_extensions_of_short_year :
    let year := Column.ofClustering "ks" "logs" "year" .int .desc 0
    let month := Column.ofClustering "ks" "logs" "month" .tinyint .asc 1
    let day := Column.ofClustering "ks" "logs" "day" .tinyint .desc 2
    let k : Key := ⟨[⟨year, [7, 232]⟩, ⟨month, [3]⟩], .bottom⟩
    let x : Key := ⟨[⟨year, [7, 232]⟩, ⟨month, [3]⟩, ⟨day, []⟩], .top⟩
    let other : Key := ⟨[⟨year, [7, 232]⟩, ⟨month, [4]⟩], .regular⟩
    k.Encloses x ∧ 1 < k.length ∧ ¬ k.Encloses { k.take 1 with marker := .top } ∧
      other.values[1]? ≠ k.values[1]? ∧ ¬ k.Encloses other := by
  intro year month day k x other
  have hlength : 1 < k.length := by decide
  have hdiffers : other.values[1]? ≠ k.values[1]? := by decide
  obtain ⟨hencloses, hstrict, _⟩ := bounds_enclose_extensions k x
  exact ⟨hencloses.mpr ⟨by decide, rfl, rfl⟩, hlength, hstrict 1 hlength .top, hdiffers,
    (bounds_enclose_extensions k other).2.2 1 hlength (.inr hdiffers)⟩

end ClusteringKeys.Key
