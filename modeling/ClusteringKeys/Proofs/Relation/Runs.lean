import ClusteringKeys.Proofs.RangeSet.Size
import ClusteringKeys.Proofs.Relation.Beginnings
import ClusteringKeys.Proofs.Relation.Natural
import ClusteringKeys.Proofs.Relation.Tiling
import Mathlib

namespace ClusteringKeys

/-- What stands in the group at hand makes no difference to the number of groups. -/
private theorem length_splitBy_loop {α : Type} (r : α → α → Bool) (l : List α) (a : α) (g : List α)
    (gs : List (List α)) :
    (List.splitBy.loop r l a g gs).length = (List.splitBy.loop r l a [] []).length + gs.length := by
  induction l generalizing a g gs with
  | nil => simp [List.splitBy.loop, Nat.add_comm]
  | cons b l ih =>
    rw [List.splitBy.loop, List.splitBy.loop]
    cases r a b with
    | true => exact (ih b (a :: g) gs).trans (congrArg (· + gs.length) (ih b [a] []).symm)
    | false =>
      have hnext := ih b [] ((a :: g).reverse :: gs)
      have hnext' := ih b [] [[a]]
      simp only [List.length_cons, List.length_nil] at hnext hnext'
      simp only [List.reverse_singleton]
      omega

theorem length_splitBy_cons_cons {α : Type} (r : α → α → Bool) (a b : α) (l : List α) :
    ((a :: b :: l).splitBy r).length = ((b :: l).splitBy r).length + if r a b then 0 else 1 := by
  rw [List.splitBy, List.splitBy, List.splitBy.loop]
  cases r a b with
  | true => exact length_splitBy_loop r l b [a] []
  | false => exact length_splitBy_loop r l b [] [[a]]

namespace Key

/-- The directions of the columns, parted where the direction changes. -/
def directionRuns (k : Key) : List (List Direction) :=
  (k.columns.map Column.direction).splitBy (· == ·)

theorem sideRanges_false (p : Key) (side : Side) :
    p.sideRanges side false = p.cells.zipIdx.foldl
      (fun set entry => set.add (p.levelRange side entry.2 entry.1.column.direction)) RangeSet.empty := rfl

theorem sideRanges_true (p : Key) (side : Side) :
    p.sideRanges side true = (p.sideRanges side false).add p.block := rfl

theorem map_cons_sideRanges_false (c : Cell) (p : Key) (side : Side) :
    (p.sideRanges side false).map (cons c) =
      p.cells.zipIdx.foldl
        (fun set entry => set.add ((p.cons c).levelRange side (entry.2 + 1) entry.1.column.direction)) .empty := by
  simp only [levelRange_cons]
  exact (RangeSet.foldl_add_map (compare_cons_cons c)
    (fun entry : Cell × Nat => p.levelRange side entry.2 entry.1.column.direction) p.cells.zipIdx .empty).symm

theorem map_cons_sideRanges_true (c : Cell) (p : Key) (side : Side) :
    (p.sideRanges side true).map (cons c) = ((p.sideRanges side false).map (cons c)).add (p.cons c).block :=
  (RangeSet.add_map (compare_cons_cons c) (p.sideRanges side false) p.block).symm

theorem within_map_cons_sideRanges {P : Nat → Cell → Prop} [Std.TransOrd (Subtype (Along P))] {c : Cell} {p : Key}
    (h : (p.cons c).Along P) (side : Side) (includePivot : Bool) :
    ((p.sideRanges side includePivot).map (cons c)).Within (Along P) := by
  have hparted : ((p.sideRanges side false).map (cons c)).Within (Along P) := by
    rw [map_cons_sideRanges_false]
    exact RangeSet.within_empty.foldl_add fun entry _ => within_levelRange h side _ _
  cases includePivot with
  | false => exact hparted
  | true =>
    rw [map_cons_sideRanges_true]
    exact hparted.add (within_block h)

private theorem sideRanges_cons_false (c : Cell) (p : Key) (side : Side) :
    (p.cons c).sideRanges side false =
      ((p.sideRanges side false).map (cons c)).add ((p.cons c).levelRange side 0 c.column.direction) := by
  have hp := along_cellOf_left (p.cons c) (p.cons c)
  have hcells : (p.cons c).cells.zipIdx = (c, 0) :: p.cells.zipIdx.map fun entry => (entry.1, entry.2 + 1) := by
    change (c :: p.cells).zipIdx = _
    rw [List.zipIdx_cons, List.zipIdx_succ]
  rw [sideRanges_false, hcells, List.foldl_cons, List.foldl_map, map_cons_sideRanges_false]
  exact RangeSet.within_empty.foldl_add_add (fun entry _ => within_levelRange hp side (entry.2 + 1) _)
    (within_levelRange hp side 0 _)

/-- With a cell in front of the pivot, the keys that have the cell are on its sides as before, and those that part from
    the pivot in the cell join one of them. -/
theorem sideRanges_cons (c : Cell) (p : Key) (side : Side) (includePivot : Bool) :
    (p.cons c).sideRanges side includePivot =
      ((p.sideRanges side includePivot).map (cons c)).add ((p.cons c).levelRange side 0 c.column.direction) := by
  cases includePivot with
  | false => exact sideRanges_cons_false c p side
  | true =>
    have hp := along_cellOf_left (p.cons c) (p.cons c)
    have hswap := (within_map_cons_sideRanges hp side false).foldl_add_add (f := id) (l := [(p.cons c).block])
      (List.forall_mem_singleton.mpr (within_block hp)) (within_levelRange hp side 0 c.column.direction)
    rw [sideRanges_true, sideRanges_cons_false, map_cons_sideRanges_true]
    exact hswap

/-- All ranges reach above the bottom of all keys and start below their top. -/
theorem admits_of_mem_sideRanges {p : Key} {side : Side} {includePivot : Bool} {q : Range Key}
    (hq : q ∈ (p.sideRanges side includePivot).ranges) :
    q.upper.admitsBelow empty.bottom ∧ q.lower.admitsAbove empty.top := by
  have hp := along_cellOf_left p p
  have hempty : empty.Along (CellOf p p) := along_empty
  obtain ⟨s, hs, hmap⟩ := within_sideRanges hp side includePivot
  rw [← hmap] at hq
  obtain ⟨q, hmem, rfl⟩ := List.mem_map.mp hq
  have hnonempty := hs.nonempty q hmem
  have hcovers : (p.sideRanges side includePivot).Covers (q.start.map Subtype.val) := by
    rw [← hmap, RangeSet.covers_map_val]
    exact ⟨q, hmem, hnonempty.covers_start⟩
  have hwhole : Range.Covers (.closed ⟨_, hempty.bottom⟩ ⟨_, hempty.top⟩) q.start :=
    (Range.covers_map_val _ _).mp (covers_empty_block_of_sideRanges hp hcovers)
  have hbottom := Std.lt_of_le_of_lt hwhole.1 hnonempty
  have htop := (Cut.lt_after_iff _ _).mp hwhole.2
  constructor
  · rw [Endpoint.admitsBelow_iff]
    change _ < (q.map Subtype.val).stop
    rw [Range.stop_map]
    exact (Cut.map_lt_map compare_subtype_val _ _).mpr hbottom
  · rw [Endpoint.admitsAbove_iff]
    change (q.map Subtype.val).start ≤ _
    rw [Range.start_map]
    exact (Cut.map_le_map compare_subtype_val _ _).mpr htop

/-- The keys that part from the pivot in its first cell stand next to those that have the cell, at the bottom or at the
    top of them. -/
theorem connects_levelRange_zero (c : Cell) {p : Key} {side : Side} {includePivot : Bool} {direction : Direction}
    {marker : Marker} (hmarker : marker ≠ .regular) (hside : side = .ofBeginning direction marker) {q : Range Key}
    (hq : q ∈ (p.sideRanges side includePivot).ranges) :
    (q.map (cons c)).connects ((p.cons c).levelRange side 0 direction) = q.contains ⟨[], marker⟩ := by
  obtain ⟨hbottom, htop⟩ := admits_of_mem_sideRanges hq
  have hconnects := Endpoint.connects_map (compare_cons_cons c)
  cases marker with
  | regular => exact absurd rfl hmarker
  | bottom =>
    have hlevel : (p.cons c).levelRange side 0 direction = .closedOpen empty.bottom (empty.bottom.cons c) := by
      rw [hside]
      exact (p.cons c).levelRange_ofBeginning_bottom 0 direction
    have hupper : (q.upper.map (cons c)).connects (.included empty.bottom) = true := by
      cases q.upper <;> rfl
    have hlower := hconnects (.excluded empty.bottom) q.lower
    rw [Endpoint.connects_excluded_left] at hlower
    rw [hlevel]
    change ((q.upper.map (cons c)).connects (.included empty.bottom) &&
      ((Endpoint.excluded empty.bottom).map (cons c)).connects (q.lower.map (cons c))) =
        (q.lower.admitsAbove empty.bottom && q.upper.admitsBelow empty.bottom)
    rw [hupper, hlower, hbottom, Bool.true_and, Bool.and_true]
  | top =>
    have hlevel : (p.cons c).levelRange side 0 direction = .openClosed (empty.top.cons c) empty.top := by
      rw [hside]
      exact (p.cons c).levelRange_ofBeginning_top 0 direction
    have hlower : (Endpoint.included empty.top).connects (q.lower.map (cons c)) = true := by
      cases q.lower <;> rfl
    have hupper := hconnects q.upper (.excluded empty.top)
    rw [Endpoint.connects_excluded_right] at hupper
    rw [hlevel]
    change ((q.upper.map (cons c)).connects ((Endpoint.excluded empty.top).map (cons c)) &&
      (Endpoint.included empty.top).connects (q.lower.map (cons c))) =
        (q.lower.admitsAbove empty.top && q.upper.admitsBelow empty.top)
    rw [hupper, hlower, htop, Bool.true_and, Bool.and_true]

/-- The keys that part from the pivot in its first cell make a range of their own, unless they stand next to the first
    or the last key of those that have the cell. -/
theorem size_sideRanges_cons (c : Cell) (p : Key) {side : Side} (includePivot : Bool) {marker : Marker}
    (hmarker : marker ≠ .regular) (hside : side = .ofBeginning c.column.direction marker) :
    ((p.cons c).sideRanges side includePivot).size =
      (p.sideRanges side includePivot).size +
        if (p.sideRanges side includePivot).contains ⟨[], marker⟩ then 0 else 1 := by
  have hp := along_cellOf_left p p
  have hcons := along_cellOf_left (p.cons c) (p.cons c)
  have hmap := within_map_cons_sideRanges hcons side includePivot
  have hlevel := within_levelRange hcons side 0 c.column.direction
  have hnonempty : ((p.cons c).levelRange side 0 c.column.direction).isEmpty = false := by
    rw [hside]
    cases marker <;> cases c.column.direction <;> rfl
  have hsize := hmap.size_add hlevel hnonempty
  have hbound : Along (CellOf p p) ⟨[], marker⟩ := along_empty
  have hcount := (within_sideRanges hp side includePivot).countP_contains hbound
  have htotal := List.length_eq_countP_add_countP (fun q => q.contains ⟨[], marker⟩)
    (l := (p.sideRanges side includePivot).ranges)
  have hapart : ((p.sideRanges side includePivot).map (cons c)).ranges.countP
      (fun q => !q.connects ((p.cons c).levelRange side 0 c.column.direction)) =
        (p.sideRanges side includePivot).ranges.countP fun q => !q.contains ⟨[], marker⟩ := by
    rw [RangeSet.map, List.countP_map]
    refine List.countP_congr fun q hq => ?_
    rw [Function.comp_apply, connects_levelRange_zero c hmarker hside hq]
  simp only [Bool.not_eq_true, Bool.decide_eq_false] at htotal
  rw [sideRanges_cons, hsize, hapart, RangeSet.size, htotal, hcount]
  split <;> omega

theorem size_sideRanges_of_isEmpty {p : Key} (hempty : p.isEmpty) (side : Side) (includePivot : Bool) :
    (p.sideRanges side includePivot).size = if includePivot then 1 else 0 := by
  obtain ⟨cells, marker⟩ := p
  cases cells with
  | nil => cases includePivot <;> rfl
  | cons c cells => cases hempty

theorem length_directionRuns_cons_cons (c d : Cell) (p : Key) :
    ((p.cons d).cons c).directionRuns.length =
      (p.cons d).directionRuns.length + if c.column.direction = d.column.direction then 0 else 1 := by
  have hlength := length_splitBy_cons_cons (· == ·) c.column.direction d.column.direction
    (p.columns.map Column.direction)
  simp only [beq_iff_eq] at hlength
  exact hlength

end Key

theorem Side.exists_ofBeginning (side : Side) (direction : Direction) :
    ∃ marker, marker ≠ .regular ∧ side = .ofBeginning direction marker := by
  cases side <;> cases direction
  case below.asc | above.desc => exact ⟨.bottom, by decide, rfl⟩
  case below.desc | above.asc => exact ⟨.top, by decide, rfl⟩

theorem Side.ofBeginning_inj {direction direction' : Direction} (marker : Marker) :
    ofBeginning direction marker = ofBeginning direction' marker ↔ direction = direction' := by
  cases direction <;> cases direction' <;> cases marker <;> decide

namespace Key

/-- Each run of columns with one direction makes one range of the keys on a side. The block of the pivot goes into the
    range of the last run. -/
theorem size_sideRanges {p : Key} (hp : p.isEmpty = false) (side : Side) (includePivot : Bool) :
    (p.sideRanges side includePivot).size = p.directionRuns.length := by
  obtain ⟨cells, marker⟩ := p
  induction cells with
  | nil => cases hp
  | cons c cells ih =>
    obtain ⟨bound, hbound, hside⟩ := side.exists_ofBeginning c.column.direction
    have hsize := size_sideRanges_cons c ⟨cells, marker⟩ includePivot hbound hside
    refine hsize.trans ?_
    cases cells with
    | nil =>
      have hcontains : (sideRanges ⟨[], marker⟩ side includePivot).contains ⟨[], bound⟩ = includePivot := by
        cases includePivot <;> cases bound <;> rfl
      rw [size_sideRanges_of_isEmpty rfl, hcontains]
      cases includePivot <;> rfl
    | cons d cells =>
      -- The bound of all keys next to which the new range stands is on the side if the next column has the direction
      -- of the new one.
      have hcontains : (sideRanges ⟨d :: cells, marker⟩ side includePivot).contains ⟨[], bound⟩ ↔
          c.column.direction = d.column.direction := by
        rw [← Side.ofBeginning_inj bound, ← hside]
        exact contains_sideRanges_beginning (p := ⟨d :: cells, marker⟩) (m := 0) rfl side includePivot bound
      rw [ih rfl]
      refine Eq.trans ?_ (length_directionRuns_cons_cons c d ⟨cells, marker⟩).symm
      simp only [hcontains]
      rfl

/-- All keys from the bottom up to the pivot, with its block or without it. -/
def rangeUpTo (p : Key) (includePivot : Bool) : Range Key :=
  if includePivot then .closed empty.bottom p.top else .closedOpen empty.bottom p.bottom

/-- All keys from the pivot up to the top, with its block or without it. -/
def rangeFrom (p : Key) (includePivot : Bool) : Range Key :=
  if includePivot then .closed p.bottom empty.top else .openClosed p.top empty.top

theorem isEmpty_rangeUpTo {p : Key} (hnonempty : p.isEmpty = false) (includePivot : Bool) :
    (p.rangeUpTo includePivot).isEmpty = false := by
  obtain ⟨cells, marker⟩ := p
  cases cells with
  | nil => cases hnonempty
  | cons c cells => cases includePivot <;> rfl

theorem isEmpty_rangeFrom {p : Key} (hnonempty : p.isEmpty = false) (includePivot : Bool) :
    (p.rangeFrom includePivot).isEmpty = false := by
  obtain ⟨cells, marker⟩ := p
  cases cells with
  | nil => cases hnonempty
  | cons c cells => cases includePivot <;> rfl

theorem within_rangeUpTo {P : Nat → Cell → Prop} {p : Key} (h : p.Along P) (includePivot : Bool) :
    (p.rangeUpTo includePivot).Within (Along P) := by
  have hempty : empty.Along P := along_empty
  cases includePivot with
  | false => exact Range.within_closedOpen hempty.bottom h.bottom
  | true => exact Range.within_closed hempty.bottom h.top

theorem within_rangeFrom {P : Nat → Cell → Prop} {p : Key} (h : p.Along P) (includePivot : Bool) :
    (p.rangeFrom includePivot).Within (Along P) := by
  have hempty : empty.Along P := along_empty
  cases includePivot with
  | false => exact Range.within_openClosed h.top hempty.top
  | true => exact Range.within_closed h.bottom hempty.top

section Along

variable {P : Nat → Cell → Prop} [Std.TransOrd (Subtype (Along P))] {p : Key}

/-- Where all columns have one direction, the ranges of the columns follow one another from the bottom of all keys to
    that of the pivot's block, or from the top of all keys down to that of the block. -/
theorem partsBefore_uniform (h : p.Along P) {direction : Direction}
    (hdirection : ∀ column ∈ p.columns, column.direction = direction) {n : Nat} (hn : n ≤ p.length)
    (c : Cut (Subtype (Along P))) :
    (p.PartsBefore (.ofBeginning direction .bottom) n (c.map Subtype.val) ↔
      (Range.closedOpen empty.bottom (p.take n).bottom).Covers (c.map Subtype.val)) ∧
    (p.PartsBefore (.ofBeginning direction .top) n (c.map Subtype.val) ↔
      (Range.openClosed (p.take n).top empty.top).Covers (c.map Subtype.val)) := by
  have hempty : empty.Along P := along_empty
  induction n with
  | zero =>
    exact ⟨iff_of_false (not_partsBefore_zero _ _ _)
        (Range.not_covers_of_start_eq_stop_within (Range.within_closedOpen hempty.bottom hempty.bottom) rfl c),
      iff_of_false (not_partsBefore_zero _ _ _)
        (Range.not_covers_of_start_eq_stop_within (Range.within_openClosed hempty.top hempty.top) rfl c)⟩
  | succ n ih =>
    have hcell : p.cells[n]? = some p.cells[n] := List.getElem?_eq_getElem hn
    have hcolumn : p.cells[n].column.direction = direction :=
      hdirection _ (List.mem_map_of_mem (List.getElem_mem hn))
    have hcells := cells_take_succ hcell
    have houter := h.take n
    have hinner := h.take (n + 1)
    have hbottom := Cut.before_le_before.mpr (congrArg Ordering.isLE (compare_bottom_of_cells hcells))
    have htop := Cut.after_le_after.mpr (congrArg Ordering.isLE (compare_top_of_cells hcells))
    obtain ⟨ihbottom, ihtop⟩ := ih (Nat.le_of_succ_le hn)
    -- The keys of one more column follow the earlier ones at the bottom, and at the top the earlier ones follow them.
    constructor
    · rw [partsBefore_succ hcell, hcolumn, ihbottom, levelRange_ofBeginning_bottom]
      exact Range.covers_or_iff_of_follows_within (t := .closedOpen empty.bottom (p.take (n + 1)).bottom)
        (Range.within_closedOpen hempty.bottom houter.bottom) (Range.within_closedOpen houter.bottom hinner.bottom)
        rfl rfl rfl (Cut.before_le_before.mpr (compare_empty_bottom_isLE _)) hbottom c
    · rw [partsBefore_succ hcell, hcolumn, ihtop, levelRange_ofBeginning_top, or_comm]
      exact Range.covers_or_iff_of_follows_within (t := .openClosed (p.take (n + 1)).top empty.top)
        (Range.within_openClosed hinner.top houter.top) (Range.within_openClosed houter.top hempty.top)
        rfl rfl rfl htop (Cut.after_le_after.mpr (compare_empty_top_isLE _)) c

theorem covers_sideRanges_bottom (h : p.Along P) {direction : Direction}
    (hdirection : ∀ column ∈ p.columns, column.direction = direction) (includePivot : Bool)
    (c : Cut (Subtype (Along P))) :
    (p.sideRanges (.ofBeginning direction .bottom) includePivot).Covers (c.map Subtype.val) ↔
      (p.rangeUpTo includePivot).Covers (c.map Subtype.val) := by
  have hparts := (partsBefore_uniform h hdirection (Nat.le_refl p.length) c).1
  have hwhole : (p.take p.length).bottom = p.bottom := by
    rw [take_length]
    rfl
  rw [hwhole] at hparts
  rw [covers_sideRanges h, hparts]
  cases includePivot with
  | false => exact or_iff_left (fun hblock => nomatch hblock.1)
  | true =>
    have hblock := Cut.before_le_after.mpr (congrArg Ordering.isLE (compare_bottom_top p))
    rw [and_iff_right rfl]
    exact Range.covers_or_iff_of_follows_within (t := p.rangeUpTo true)
      (Range.within_closedOpen along_empty.bottom h.bottom) (within_block h) rfl rfl rfl
      (Cut.before_le_before.mpr (compare_empty_bottom_isLE _)) hblock c

theorem covers_sideRanges_top (h : p.Along P) {direction : Direction}
    (hdirection : ∀ column ∈ p.columns, column.direction = direction) (includePivot : Bool)
    (c : Cut (Subtype (Along P))) :
    (p.sideRanges (.ofBeginning direction .top) includePivot).Covers (c.map Subtype.val) ↔
      (p.rangeFrom includePivot).Covers (c.map Subtype.val) := by
  have hparts := (partsBefore_uniform h hdirection (Nat.le_refl p.length) c).2
  have hwhole : (p.take p.length).top = p.top := by
    rw [take_length]
    rfl
  rw [hwhole] at hparts
  rw [covers_sideRanges h, hparts]
  cases includePivot with
  | false => exact or_iff_left (fun hblock => nomatch hblock.1)
  | true =>
    have hblock := Cut.before_le_after.mpr (congrArg Ordering.isLE (compare_bottom_top p))
    rw [and_iff_right rfl, or_comm]
    exact Range.covers_or_iff_of_follows_within (t := p.rangeFrom true) (within_block h)
      (Range.within_openClosed h.top along_empty.top) rfl rfl rfl hblock
      (Cut.after_le_after.mpr (compare_empty_top_isLE _)) c

end Along

section Directions

variable {p : Key} (hnonempty : p.isEmpty = false) {direction : Direction}
  (hdirection : ∀ column ∈ p.columns, column.direction = direction) (includePivot : Bool)

include hnonempty hdirection

theorem sideRanges_eq_rangeUpTo :
    p.sideRanges (.ofBeginning direction .bottom) includePivot = ⟨[p.rangeUpTo includePivot]⟩ := by
  have hp := along_cellOf_left p p
  exact (within_sideRanges hp _ includePivot).eq_singleton (within_rangeUpTo hp includePivot)
    (isEmpty_rangeUpTo hnonempty includePivot) (covers_sideRanges_bottom hp hdirection includePivot)

theorem sideRanges_eq_rangeFrom :
    p.sideRanges (.ofBeginning direction .top) includePivot = ⟨[p.rangeFrom includePivot]⟩ := by
  have hp := along_cellOf_left p p
  exact (within_sideRanges hp _ includePivot).eq_singleton (within_rangeFrom hp includePivot)
    (isEmpty_rangeFrom hnonempty includePivot) (covers_sideRanges_top hp hdirection includePivot)

end Directions

/-- The relations hold as many ranges as the columns of the pivot have runs of one direction, whatever the values and
    the marker, and for a pivot without columns one range or none. Where all columns have one direction, the keys below
    a pivot reach up to it from the bottom of all keys or, reversed, from it up to their top. -/
theorem ranges_count_direction_runs (p : Key) :
    (p.isEmpty = false →
      ∀ keys ∈ [p.atMost, p.lessThan, p.atLeast, p.greaterThan], keys.size = p.directionRuns.length) ∧
    (p.isEmpty →
      p.atMost.size = (if p.isBottom then 0 else 1) ∧ p.lessThan.size = (if p.isTop then 1 else 0) ∧
      p.atLeast.size = (if p.isTop then 0 else 1) ∧ p.greaterThan.size = (if p.isBottom then 1 else 0)) ∧
    (p.isEmpty = false → p.marker = .regular → (∀ column ∈ p.columns, column.direction = .asc) →
      p.atMost = ⟨[.closed Key.empty.bottom p.top]⟩ ∧ p.lessThan = ⟨[.closedOpen Key.empty.bottom p.bottom]⟩) ∧
    (p.isEmpty = false → p.marker = .regular → (∀ column ∈ p.columns, column.direction = .desc) →
      p.atMost = ⟨[.closed p.bottom Key.empty.top]⟩ ∧ p.lessThan = ⟨[.openClosed p.top Key.empty.top]⟩) := by
  refine ⟨?_, ?_, ?_, ?_⟩
  · intro hnonempty
    simp only [List.forall_mem_cons, List.not_mem_nil, false_implies, implies_true, and_true]
    exact ⟨size_sideRanges hnonempty .below _, size_sideRanges hnonempty .below _,
      size_sideRanges hnonempty .above _, size_sideRanges hnonempty .above _⟩
  · intro hempty
    have hsize := size_sideRanges_of_isEmpty hempty
    refine ⟨(hsize .below _).trans ?_, hsize .below _, (hsize .above _).trans ?_, hsize .above _⟩
    · cases p.isBottom <;> rfl
    · cases p.isTop <;> rfl
  · intro hnonempty hregular hdirection
    obtain ⟨cells, marker⟩ := p
    obtain rfl : marker = .regular := hregular
    have hranges := sideRanges_eq_rangeUpTo hnonempty hdirection
    exact ⟨hranges true, hranges false⟩
  · intro hnonempty hregular hdirection
    obtain ⟨cells, marker⟩ := p
    obtain rfl : marker = .regular := hregular
    have hranges := sideRanges_eq_rangeFrom hnonempty hdirection
    exact ⟨hranges true, hranges false⟩

theorem ranges_count_direction_runs_of_dates :
    let year := Column.ofClustering "ks" "logs" "year" .int .asc 0
    let month := Column.ofClustering "ks" "logs" "month" .tinyint .desc 1
    let day := Column.ofClustering "ks" "logs" "day" .tinyint .desc 2
    let date : Key := ⟨[⟨year, [7, 232]⟩, ⟨month, [3]⟩, ⟨day, [1]⟩], .top⟩
    let start : Key := ⟨[⟨year, [7, 232]⟩], .regular⟩
    let dayOfYear : Key := ⟨[⟨month, [3]⟩, ⟨day, [1]⟩], .regular⟩
    date.atMost.size = 2 ∧ date.greaterThan.size = 2 ∧ empty.lessThan.size = 0 ∧ empty.atLeast.size = 1 ∧
      start.lessThan = ⟨[.closedOpen empty.bottom start.bottom]⟩ ∧
      dayOfYear.atMost = ⟨[.closed dayOfYear.bottom empty.top]⟩ := by
  intro year month day date start dayOfYear
  have hruns : date.directionRuns.length = 2 := by decide
  have hsize := (ranges_count_direction_runs date).1 rfl
  obtain ⟨_, hless, hleast, _⟩ := (ranges_count_direction_runs empty).2.1 rfl
  obtain ⟨_, hbelow⟩ := (ranges_count_direction_runs start).2.2.1 rfl rfl (by decide)
  obtain ⟨hatMost, _⟩ := (ranges_count_direction_runs dayOfYear).2.2.2 rfl rfl (by decide)
  exact ⟨(hsize _ (by simp)).trans hruns, (hsize _ (by simp)).trans hruns, hless, hleast, hbelow, hatMost⟩

end Key

end ClusteringKeys
