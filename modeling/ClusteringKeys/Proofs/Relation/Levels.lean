import ClusteringKeys.Proofs.Key.Order
import ClusteringKeys.Proofs.RangeSet.Split
import ClusteringKeys.Relation
import Mathlib

namespace ClusteringKeys.Key

theorem compare_markers (cells : List Cell) (marker marker' : Marker) :
    Ord.compare (⟨cells, marker⟩ : Key) ⟨cells, marker'⟩ = Ord.compare marker marker' := by
  have happend := compareCells_append marker marker' cells [] []
  rw [List.append_nil] at happend
  exact happend

/-- Against what has one cell more, the marker of the shorter key or bound decides. -/
theorem compare_append_cell (cells : List Cell) (cell : Cell) (marker marker' : Marker) :
    Ord.compare (⟨cells, marker⟩ : Key) ⟨cells ++ [cell], marker'⟩ = marker.againstExtension := by
  have happend := compareCells_append marker marker' cells [] [cell]
  rw [List.append_nil] at happend
  exact happend

theorem compare_bottom_top (k : Key) : Ord.compare k.bottom k.top = .lt :=
  compare_markers k.cells .bottom .top

theorem compare_bottom_of_cells {k k' : Key} {cell : Cell} (h : k'.cells = k.cells ++ [cell]) :
    Ord.compare k.bottom k'.bottom = .lt := by
  rw [bottom, bottom, h]
  exact compare_append_cell k.cells cell .bottom .bottom

theorem compare_top_of_cells {k k' : Key} {cell : Cell} (h : k'.cells = k.cells ++ [cell]) :
    Ord.compare k'.top k.top = .lt := by
  rw [top, top, h]
  exact Std.OrientedCmp.gt_iff_lt.mp (compare_append_cell k.cells cell .top .top)

/-- All keys that begin with the values of this one, and the bounds of such keys. -/
def block (k : Key) : Range Key :=
  .closed k.bottom k.top

theorem block_empty_covers_before (x : Key) : empty.block.Covers (.before x) :=
  ⟨Cut.before_le_before.mpr (compare_empty_bottom_isLE x), Cut.before_lt_after.mpr (compare_empty_top_isLE x)⟩

/-- One of the first `n` columns has the cut among the keys that part from the pivot there towards the side. -/
def PartsBefore (pivot : Key) (side : Side) (n : Nat) (c : Cut Key) : Prop :=
  ∃ level cell, level < n ∧ pivot.cells[level]? = some cell ∧
    (pivot.levelRange side level cell.column.direction).Covers c

theorem not_partsBefore_zero (pivot : Key) (side : Side) (c : Cut Key) : ¬ pivot.PartsBefore side 0 c :=
  fun ⟨_, _, hlevel, _⟩ => absurd hlevel (Nat.not_lt_zero _)

theorem partsBefore_succ {pivot : Key} {n : Nat} {cell : Cell} (hcell : pivot.cells[n]? = some cell) (side : Side)
    (c : Cut Key) :
    pivot.PartsBefore side (n + 1) c ↔
      pivot.PartsBefore side n c ∨ (pivot.levelRange side n cell.column.direction).Covers c := by
  constructor
  · rintro ⟨level, cell', hlevel, hcell', hcovers⟩
    rcases Nat.lt_succ_iff_lt_or_eq.mp hlevel with hlt | rfl
    · exact .inl ⟨level, cell', hlt, hcell', hcovers⟩
    · rw [Option.some.inj (hcell.symm.trans hcell')]
      exact .inr hcovers
  · rintro (⟨level, cell', hlevel, hcell', hcovers⟩ | hcovers)
    · exact ⟨level, cell', Nat.lt_succ_of_lt hlevel, hcell', hcovers⟩
    · exact ⟨n, cell, Nat.lt_succ_self n, hcell, hcovers⟩

theorem cells_take_succ {k : Key} {n : Nat} {cell : Cell} (hcell : k.cells[n]? = some cell) :
    (k.take (n + 1)).cells = (k.take n).cells ++ [cell] := by
  rw [take, take, List.take_add_one, hcell]
  rfl

theorem take_length (k : Key) : k.take k.length = { k with marker := .regular } := by
  rw [take, length, List.take_length]

section Along

variable {P : Nat → Cell → Prop}

theorem Along.bottom {k : Key} (h : k.Along P) : k.bottom.Along P := h

theorem Along.top {k : Key} (h : k.Along P) : k.top.Along P := h

theorem Along.take {k : Key} (h : k.Along P) (n : Nat) : (k.take n).Along P :=
  CellsAlong.take h n

theorem along_empty : empty.Along P :=
  fun _ _ h => nomatch h

theorem within_block {k : Key} (h : k.Along P) : k.block.Within (Along P) :=
  Range.within_closed h.bottom h.top

theorem within_levelRange {pivot : Key} (h : pivot.Along P) (side : Side) (level : Nat) (direction : Direction) :
    (pivot.levelRange side level direction).Within (Along P) := by
  have houter := h.take level
  have hinner := h.take (level + 1)
  unfold levelRange
  split
  · exact Range.within_closedOpen houter.bottom hinner.bottom
  · exact Range.within_openClosed hinner.top houter.top

private theorem within_parted {pivot : Key} (h : pivot.Along P) (side : Side) :
    ∀ entry ∈ pivot.cells.zipIdx, (pivot.levelRange side entry.2 entry.1.column.direction).Within (Along P) :=
  fun entry _ => within_levelRange h side entry.2 entry.1.column.direction

variable [Std.TransOrd (Subtype (Along P))]

/-- The block of the first columns falls into the keys below the pivot in the next column, the block of one column
    more, and the keys above the pivot in that column. Which of the outer parts stands first depends on the direction
    of the column. -/
theorem splits_level {pivot : Key} (h : pivot.Along P) {level : Nat} {cell : Cell}
    (hcell : pivot.cells[level]? = some cell) (direction : Direction) (c : Cut (Subtype (Along P))) :
    Splits ((pivot.take level).block.Covers (c.map Subtype.val))
      ((pivot.levelRange .below level direction).Covers (c.map Subtype.val))
      ((pivot.take (level + 1)).block.Covers (c.map Subtype.val))
      ((pivot.levelRange .above level direction).Covers (c.map Subtype.val)) := by
  have houter := h.take level
  have hinner := h.take (level + 1)
  have hcells := cells_take_succ hcell
  have hbottom := congrArg Ordering.isLE (compare_bottom_of_cells hcells)
  have htop := congrArg Ordering.isLE (compare_top_of_cells hcells)
  have hblock := congrArg Ordering.isLE (compare_bottom_top (pivot.take (level + 1)))
  have hsplits := Range.splits_closed_within houter.bottom hinner.bottom hinner.top houter.top hbottom hblock htop c
  cases direction with
  | asc => exact hsplits
  | desc => exact hsplits.swap

/-- Column after column the keys below and above the pivot are set apart, until its own block is left. -/
theorem splits_levels {pivot : Key} (h : pivot.Along P) {n : Nat} (hn : n ≤ pivot.length)
    (c : Cut (Subtype (Along P))) :
    Splits (empty.block.Covers (c.map Subtype.val)) (pivot.PartsBefore .below n (c.map Subtype.val))
      ((pivot.take n).block.Covers (c.map Subtype.val)) (pivot.PartsBefore .above n (c.map Subtype.val)) := by
  induction n with
  | zero =>
    have hbelow := pivot.not_partsBefore_zero .below (c.map Subtype.val)
    have habove := pivot.not_partsBefore_zero .above (c.map Subtype.val)
    refine ⟨?_, fun hnone => absurd hnone hbelow, fun hnone => absurd hnone hbelow, fun _ => habove⟩
    rw [or_iff_right hbelow, or_iff_left habove]
    exact Iff.rfl
  | succ n ih =>
    have hcell : pivot.cells[n]? = some pivot.cells[n] := List.getElem?_eq_getElem hn
    rw [partsBefore_succ hcell, partsBefore_succ hcell]
    exact (ih (Nat.le_of_succ_le hn)).refine (splits_level h hcell _ c)

/-- The whole order of keys falls into the keys below the pivot, its block, and the keys above it. -/
theorem splits_pivot {pivot : Key} (h : pivot.Along P) (c : Cut (Subtype (Along P))) :
    Splits (empty.block.Covers (c.map Subtype.val)) (pivot.PartsBefore .below pivot.length (c.map Subtype.val))
      (pivot.block.Covers (c.map Subtype.val)) (pivot.PartsBefore .above pivot.length (c.map Subtype.val)) := by
  have hsplits := splits_levels h (Nat.le_refl _) c
  rw [take_length] at hsplits
  exact hsplits

theorem within_sideRanges {pivot : Key} (h : pivot.Along P) (side : Side) (includePivot : Bool) :
    (pivot.sideRanges side includePivot).Within (Along P) := by
  have hparted := RangeSet.within_empty.foldl_add (within_parted h side)
  cases includePivot with
  | false => exact hparted
  | true => exact hparted.add (within_block h)

theorem covers_sideRanges {pivot : Key} (h : pivot.Along P) (side : Side) (includePivot : Bool)
    (c : Cut (Subtype (Along P))) :
    (pivot.sideRanges side includePivot).Covers (c.map Subtype.val) ↔
      pivot.PartsBefore side pivot.length (c.map Subtype.val) ∨
        includePivot ∧ pivot.block.Covers (c.map Subtype.val) := by
  have hparted := RangeSet.within_empty.foldl_add (within_parted h side)
  have hcovers := RangeSet.within_empty.covers_foldl_add (within_parted h side) c
  have hlevels : (∃ entry ∈ pivot.cells.zipIdx,
      (pivot.levelRange side entry.2 entry.1.column.direction).Covers (c.map Subtype.val)) ↔
      pivot.PartsBefore side pivot.length (c.map Subtype.val) := by
    constructor
    · rintro ⟨⟨cell, level⟩, hentry, hlevel⟩
      have hcell := List.mk_mem_zipIdx_iff_getElem?.mp hentry
      exact ⟨level, cell, (List.getElem?_eq_some_iff.mp hcell).1, hcell, hlevel⟩
    · rintro ⟨level, cell, _, hcell, hlevel⟩
      exact ⟨(cell, level), List.mk_mem_zipIdx_iff_getElem?.mpr hcell, hlevel⟩
  rw [or_iff_right (RangeSet.not_covers_empty _), hlevels] at hcovers
  cases includePivot with
  | false =>
    rw [or_iff_left (fun hblock => nomatch hblock.1)]
    exact hcovers
  | true =>
    rw [and_iff_right rfl, ← hcovers]
    exact hparted.covers_add (within_block h) c

theorem covers_empty_block_of_sideRanges {pivot : Key} (h : pivot.Along P) {side : Side} {includePivot : Bool}
    {c : Cut (Subtype (Along P))} (hcovers : (pivot.sideRanges side includePivot).Covers (c.map Subtype.val)) :
    empty.block.Covers (c.map Subtype.val) := by
  refine (splits_pivot h c).cover.mpr ?_
  rcases (covers_sideRanges h side includePivot c).mp hcovers with hparts | ⟨_, hblock⟩
  · cases side with
    | below => exact .inl hparts
    | above => exact .inr (.inr hparts)
  · exact .inr (.inl hblock)

end Along

theorem splits_pivot_before (pivot x : Key) :
    Splits (empty.block.Covers (.before x)) (pivot.PartsBefore .below pivot.length (.before x))
      (pivot.block.Covers (.before x)) (pivot.PartsBefore .above pivot.length (.before x)) :=
  splits_pivot (along_cellOf_left pivot x) (.before ⟨x, along_cellOf_right pivot x⟩)

/-- A key or bound, of whatever columns, is on a side of the pivot if it parts from it there, or begins like it where
    such keys are included. -/
theorem contains_sideRanges_iff_partsBefore (pivot x : Key) (side : Side) (includePivot : Bool) :
    (pivot.sideRanges side includePivot).contains x ↔
      pivot.PartsBefore side pivot.length (.before x) ∨ includePivot ∧ pivot.block.Covers (.before x) := by
  have hpivot := along_cellOf_left pivot x
  have hx := along_cellOf_right pivot x
  rw [(within_sideRanges hpivot side includePivot).contains_iff hx]
  exact covers_sideRanges hpivot side includePivot (.before ⟨x, hx⟩)

end ClusteringKeys.Key
