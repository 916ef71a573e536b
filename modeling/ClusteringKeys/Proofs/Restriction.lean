import ClusteringKeys.Proofs.Key.WellFormed
import ClusteringKeys.Proofs.KeyLayout
import ClusteringKeys.Proofs.Relation.Natural
import Mathlib

namespace ClusteringKeys

namespace Key

variable {P : Nat → Cell → Prop} [Std.TransOrd (Subtype (Along P))]

theorem within_keys {pivot : Key} (h : pivot.Along P) (relation : Relation) :
    (relation.keys pivot).Within (Along P) := by
  have hsides := within_sideRanges h
  cases relation with
  | atMost => exact hsides .below _
  | lessThan => exact hsides .below _
  | atLeast => exact hsides .above _
  | greaterThan => exact hsides .above _
  | equalTo =>
    rw [Relation.keys, equalTo]
    split
    · exact RangeSet.within_empty
    · exact RangeSet.within_ofRange (within_block h)
  | notEqualTo =>
    rw [Relation.keys, notEqualTo]
    split
    · exact RangeSet.within_all
    · exact (hsides .below _).union (hsides .above _)

end Key

theorem sized_of_encodes {values : List Value} {cells : List Cell} (h : List.Forall₂ Value.Encodes values cells) :
    ∀ cell ∈ cells, cell.Sized := by
  induction h with
  | nil => exact List.forall_mem_nil _
  | cons hv _ ih => exact List.forall_mem_cons.mpr ⟨Value.sized_of_encode? hv, ih⟩

theorem Key.along_sized_of_encodes {k : Key} {values : List Value} (h : List.Forall₂ Value.Encodes values k.cells) :
    k.Along fun _ => Cell.Sized :=
  fun _ cell hcell => sized_of_encodes h cell (List.mem_of_getElem? hcell)

/-- Keys are in the natural order of the values that they store. -/
theorem compareLex_encodes {row values : List Value} {rowCells cells : List Cell}
    (hrow : List.Forall₂ Value.Encodes row rowCells) (hvalues : List.Forall₂ Value.Encodes values cells)
    (hcolumns : (rowCells.take cells.length).map Cell.column = cells.map Cell.column)
    (hnatural : ∀ cell ∈ cells, cell.column.type.isNatural) :
    List.compareLex Cell.compareNatural (rowCells.take cells.length) cells =
      List.compareLex Value.compareNatural (row.take values.length) values := by
  induction hvalues generalizing row rowCells with
  | nil => rfl
  | cons hv hrest ih =>
    cases hrow with
    | nil => cases hcolumns
    | cons hw hrow =>
      obtain ⟨hcolumn, hcolumns⟩ := List.cons.inj hcolumns
      obtain ⟨htype, hnatural⟩ := List.forall_mem_cons.mp hnatural
      rw [Value.Encodes, hcolumn] at hw
      rw [List.length_cons, List.length_cons, List.take_succ_cons, List.take_succ_cons, List.compareLex_cons_cons,
        List.compareLex_cons_cons, ih hrow hcolumns hnatural, Cell.compareNatural, Value.compare_encode htype hw hv]

/-- A condition on rows: the values of the first clustering columns stand in a relation to given values. -/
structure Restriction where
  relation : Relation
  values : List Value

/-- The first values of the row stand in the relation in the natural order, of which the first difference decides. -/
def Restriction.holds (r : Restriction) (row : List Value) : Bool :=
  r.relation.holds (List.compareLex Value.compareNatural (row.take r.values.length) r.values)

namespace KeyLayout

/-- The keys that a restriction lets through. -/
def restrict (layout : KeyLayout) (r : Restriction) : Except Error (RangeSet Key) := do
  return r.relation.keys (← layout.leading r.values)

/-- The keys that all restrictions let through. -/
def select (layout : KeyLayout) (restrictions : List Restriction) : Except Error (RangeSet Key) := do
  return (← restrictions.mapM layout.restrict).foldl RangeSet.intersection .all

section Row

variable {layout : KeyLayout} (hnatural : ∀ column ∈ layout.clustering, column.type.isNatural) {row : List Value}
  {key : Key} (hkey : layout.leading row = .ok key)
include hnatural hkey

theorem compareNatural_of_leading {values : List Value} {pivot : Key} (hpivot : layout.leading values = .ok pivot)
    (hlength : values.length ≤ row.length) :
    key.columns.take pivot.length = pivot.columns ∧
      key.compareNatural pivot = List.compareLex Value.compareNatural (row.take values.length) values := by
  obtain ⟨_, hkeyColumns, hkeyCells⟩ := leading_eq_ok hkey
  obtain ⟨_, hpivotColumns, hpivotCells⟩ := leading_eq_ok hpivot
  have hcolumns : key.columns.take pivot.length = pivot.columns := by
    rw [hkeyColumns, hpivotColumns, List.take_take, Key.length, ← hpivotCells.length_eq, Nat.min_eq_left hlength]
  refine ⟨hcolumns, compareLex_encodes hkeyCells hpivotCells (List.map_take.trans hcolumns) ?_⟩
  intro cell hcell
  have hcolumn : cell.column ∈ pivot.columns := List.mem_map_of_mem hcell
  rw [hpivotColumns] at hcolumn
  exact hnatural _ (List.mem_of_mem_take hcolumn)

/-- The set of a restriction contains the rows for which it holds. -/
theorem exists_restrict {r : Restriction} {pivot : Key} (hpivot : layout.leading r.values = .ok pivot)
    (hlength : r.values.length ≤ row.length) :
    ∃ keys, layout.restrict r = .ok keys ∧ keys.Within (Key.Along fun _ => Cell.Sized) ∧
      keys.contains key = r.holds row := by
  obtain ⟨hregular, _, hcells⟩ := leading_eq_ok hpivot
  obtain ⟨hcolumns, hcompare⟩ := compareNatural_of_leading hnatural hkey hpivot hlength
  refine ⟨r.relation.keys pivot, bind_eq_ok_iff.mpr ⟨pivot, hpivot, rfl⟩,
    Key.within_keys (Key.along_sized_of_encodes hcells) r.relation, ?_⟩
  rw [r.relation.contains_keys hregular hcolumns, hcompare, Restriction.holds]

/-- Each further restriction takes away the rows for which it does not hold. -/
theorem exists_foldl_intersection {restrictions : List Restriction}
    (haccepted : ∀ r ∈ restrictions, (∃ pivot, layout.leading r.values = .ok pivot) ∧ r.values.length ≤ row.length)
    {selected : RangeSet Key} (hselected : selected.Within (Key.Along fun _ => Cell.Sized)) :
    ∃ sets, restrictions.mapM layout.restrict = .ok sets ∧
      (sets.foldl RangeSet.intersection selected).contains key =
        (selected.contains key && restrictions.all fun r => r.holds row) := by
  have hsized := Key.along_sized_of_encodes (leading_eq_ok hkey).2.2
  induction restrictions generalizing selected with
  | nil => exact ⟨[], rfl, (Bool.and_true _).symm⟩
  | cons r restrictions ih =>
    obtain ⟨⟨⟨pivot, hpivot⟩, hlength⟩, haccepted⟩ := List.forall_mem_cons.mp haccepted
    obtain ⟨keys, hkeys, hwithin, hcontains⟩ := exists_restrict hnatural hkey hpivot hlength
    obtain ⟨sets, hsets, hfold⟩ := ih haccepted (hselected.intersection hwithin)
    refine ⟨keys :: sets, mapM_eq_ok_iff.mpr (.cons hkeys (mapM_eq_ok_iff.mp hsets)), ?_⟩
    rw [List.foldl_cons, hfold, hselected.contains_intersection hwithin hsized, hcontains, List.all_cons,
      Bool.and_assoc]

end Row

/-- The keys that restrictions let through are those of the rows for which all of them hold, whatever the directions
    of the columns, as long as the values of the columns are ordered as numbers, truth values or bytes. -/
theorem select_contains {layout : KeyLayout} (hnatural : ∀ column ∈ layout.clustering, column.type.isNatural)
    {row : List Value} {key : Key} (hkey : layout.leading row = .ok key) {restrictions : List Restriction}
    (haccepted : ∀ r ∈ restrictions, (∃ pivot, layout.leading r.values = .ok pivot) ∧ r.values.length ≤ row.length) :
    ∃ selected, layout.select restrictions = .ok selected ∧
      selected.contains key = restrictions.all fun r => r.holds row := by
  obtain ⟨sets, hsets, hfold⟩ := exists_foldl_intersection hnatural hkey haccepted RangeSet.within_all
  exact ⟨_, bind_eq_ok_iff.mpr ⟨sets, hsets, rfl⟩, hfold.trans (Bool.true_and _)⟩

/-- The years descend and the months ascend. Restrictions may have values of other widths than the columns. -/
theorem select_contains_of_year_month :
    let schema : Schema := {
      keyspace := "ks"
      table := "logs"
      partitionKeys := [⟨"source", "uuid", 0⟩]
      clusteringKeys := [⟨"month", "tinyint", 1, "ASC"⟩, ⟨"year", "int", 0, "DESC"⟩] }
    let layout : KeyLayout := {
      partition := [.ofPartition "ks" "logs" "source" .uuid 0]
      clustering := [.ofClustering "ks" "logs" "year" .int .desc 0, .ofClustering "ks" "logs" "month" .tinyint .asc 1]
      settings := {} }
    let row : List Value := [.int 2024, .tinyint (-3)]
    let restrictions : List Restriction :=
      [⟨.greaterThan, [.smallint (-1)]⟩, ⟨.atMost, [.int 2024, .tinyint 4]⟩, ⟨.notEqualTo, [.int 2024, .tinyint 4]⟩]
    ofSchema schema {} = .ok layout ∧ ∃ key selected, layout.leading row = .ok key ∧
      layout.select restrictions = .ok selected ∧ selected.contains key := by
  intro schema layout row restrictions
  have hlayout : ofSchema schema {} = .ok layout := by
    refine ofSchema_eq_ok_iff.mpr ⟨?_, rfl, ?_, ?_, rfl⟩ <;> decide +kernel
  have hkey : layout.leading row = .ok _ := rfl
  have haccepted : ∀ r ∈ restrictions,
      (∃ pivot, layout.leading r.values = .ok pivot) ∧ r.values.length ≤ row.length :=
    List.forall_mem_cons.mpr ⟨⟨⟨_, rfl⟩, by decide⟩, List.forall_mem_cons.mpr ⟨⟨⟨_, rfl⟩, by decide⟩,
      List.forall_mem_singleton.mpr ⟨⟨_, rfl⟩, by decide⟩⟩⟩
  have hholds : (restrictions.all fun r => r.holds row) = true := by decide +kernel
  obtain ⟨selected, hselect, hcontains⟩ := select_contains (by decide) hkey haccepted
  exact ⟨hlayout, _, selected, hkey, hselect, hcontains.trans hholds⟩

end KeyLayout

end ClusteringKeys
