import ClusteringKeys.Proofs.Relation.Levels
import Mathlib

namespace ClusteringKeys

/-- The natural order of two values in the column of the second, whatever the direction of the column. -/
def Cell.compareNatural (left right : Cell) : Ordering :=
  right.column.type.compare left.value right.value

theorem Cell.compare_of_column {left right : Cell} (h : left.column = right.column) :
    left.compare right = right.column.direction.apply (left.compareNatural right) := by
  have hself : right.column.compareIdentity right.column = .eq := Std.ReflCmp.compare_self
  rw [Cell.compare, h, hself, Ordering.eq_then]
  rfl

/-- The outcome of comparing a value on this side of the pivot with the pivot. -/
def Side.ordering : Side → Ordering
  | below => .lt
  | above => .gt

namespace Key

/-- The natural order of a key and a pivot: the first column of the pivot in which they differ decides. -/
def compareNatural (k pivot : Key) : Ordering :=
  List.compareLex Cell.compareNatural (k.cells.take pivot.length) pivot.cells

/-- The key with another cell in front. -/
def cons (cell : Cell) (k : Key) : Key :=
  ⟨cell :: k.cells, k.marker⟩

theorem compare_cons (c d : Cell) (k l : Key) :
    Ord.compare (k.cons c) (l.cons d) = (c.compare d).then (Ord.compare k l) := rfl

theorem compare_cons_cons (c : Cell) (k l : Key) : Ord.compare (k.cons c) (l.cons c) = Ord.compare k l := by
  have hself : c.compare c = .eq := Std.ReflCmp.compare_self
  rw [compare_cons, hself, Ordering.eq_then]

theorem levelRange_cons (c : Cell) (pivot : Key) (side : Side) (level : Nat) (direction : Direction) :
    (pivot.cons c).levelRange side (level + 1) direction = (pivot.levelRange side level direction).map (cons c) := by
  unfold levelRange
  split <;> rfl

private theorem compare_cons_of_ne {c d : Cell} (hne : d.compare c ≠ .eq) (k l : Key) :
    Ord.compare (k.cons d) (l.cons c) = d.compare c := by
  rw [compare_cons]
  cases hcompare : d.compare c with
  | lt => rfl
  | eq => exact absurd hcompare hne
  | gt => rfl

/-- What lies between keys that share their first cell shares it too. -/
theorem not_contains_map_cons {c d : Cell} (hne : d.compare c ≠ .eq) (k : Key) {r : Range Key}
    (hlower : r.lower ≠ .unbounded) (hupper : r.upper ≠ .unbounded) : ¬ (r.map (cons c)).contains (k.cons d) := by
  obtain ⟨lower, upper⟩ := r
  intro hcontains
  obtain ⟨habove, hbelow⟩ := Bool.and_eq_true_iff.mp hcontains
  have hgt : d.compare c = .gt := by
    cases lower with
    | unbounded => exact absurd rfl hlower
    | included a | excluded a =>
      simp only [Range.map, Endpoint.map, Endpoint.admitsAbove, compare_cons_of_ne hne] at habove
      cases hcompare : d.compare c <;> simp_all
  have hlt : d.compare c = .lt := by
    cases upper with
    | unbounded => exact absurd rfl hupper
    | included a | excluded a =>
      simp only [Range.map, Endpoint.map, Endpoint.admitsBelow, compare_cons_of_ne hne] at hbelow
      cases hcompare : d.compare c <;> simp_all
  cases hgt.symm.trans hlt

theorem contains_map_cons {c d : Cell} (hcolumn : d.column = c.column) (k : Key) {r : Range Key}
    (hlower : r.lower ≠ .unbounded) (hupper : r.upper ≠ .unbounded) :
    (r.map (cons c)).contains (k.cons d) ↔ d.compareNatural c = .eq ∧ r.contains k := by
  have hcompare : d.compare c = .eq ↔ d.compareNatural c = .eq := by
    rw [Cell.compare_of_column hcolumn, Direction.apply_eq_eq_iff]
  by_cases heq : d.compare c = .eq
  · rw [and_iff_right (hcompare.mp heq)]
    obtain rfl : d = c := Std.LawfulEqCmp.eq_of_compare heq
    exact Bool.eq_iff_iff.mp (Range.contains_map (compare_cons_cons d) r k)
  · exact iff_of_false (not_contains_map_cons heq k hlower hupper) fun h => heq (hcompare.mpr h.1)

theorem lower_levelRange_ne_unbounded (pivot : Key) (side : Side) (level : Nat) (direction : Direction) :
    (pivot.levelRange side level direction).lower ≠ .unbounded := by
  unfold levelRange
  split <;> exact nofun

theorem upper_levelRange_ne_unbounded (pivot : Key) (side : Side) (level : Nat) (direction : Direction) :
    (pivot.levelRange side level direction).upper ≠ .unbounded := by
  unfold levelRange
  split <;> exact nofun

private theorem contains_closedOpen_cons (c d : Cell) (k : Key) :
    (Range.closedOpen empty.bottom (empty.bottom.cons c)).contains (k.cons d) = (d.compare c).isLT := by
  have hrest : (Ord.compare k empty.bottom).isGE := Std.OrientedCmp.isGE_iff_isLE.mpr (compare_empty_bottom_isLE k)
  change (Ord.compare (k.cons d) (empty.bottom.cons c)).isLT = (d.compare c).isLT
  rw [compare_cons]
  cases d.compare c <;> cases hcompare : Ord.compare k empty.bottom <;> simp_all

private theorem contains_openClosed_cons (c d : Cell) (k : Key) :
    (Range.openClosed (empty.top.cons c) empty.top).contains (k.cons d) = (d.compare c).isGT := by
  have hrest := compare_empty_top_isLE k
  change ((Ord.compare (k.cons d) (empty.top.cons c)).isGT && true) = (d.compare c).isGT
  rw [Bool.and_true, compare_cons]
  cases d.compare c <;> cases hcompare : Ord.compare k empty.top <;> simp_all

/-- The keys that part from the pivot in its first column towards a side are those whose value there is on that side in
    the natural order. The direction of the column turns the order and swaps the ends of the block. -/
theorem contains_levelRange_zero {c d : Cell} (hcolumn : d.column = c.column) (pivot k : Key) (side : Side) :
    ((pivot.cons c).levelRange side 0 c.column.direction).contains (k.cons d) ↔
      d.compareNatural c = side.ordering := by
  have hcompare := Cell.compare_of_column hcolumn
  have hbelow := contains_closedOpen_cons c d k
  have habove := contains_openClosed_cons c d k
  rw [hcompare] at hbelow habove
  cases hdirection : c.column.direction <;> rw [hdirection] at hbelow habove <;> cases side
  case asc.below =>
    refine (Bool.eq_iff_iff.mp hbelow).trans ?_
    cases d.compareNatural c <;> simp [Direction.apply, Side.ordering]
  case asc.above =>
    refine (Bool.eq_iff_iff.mp habove).trans ?_
    cases d.compareNatural c <;> simp [Direction.apply, Side.ordering]
  case desc.below =>
    refine (Bool.eq_iff_iff.mp habove).trans ?_
    cases d.compareNatural c <;> simp [Direction.apply, Side.ordering]
  case desc.above =>
    refine (Bool.eq_iff_iff.mp hbelow).trans ?_
    cases d.compareNatural c <;> simp [Direction.apply, Side.ordering]

theorem compareNatural_cons_cons (c d : Cell) (pivot k : Key) :
    (k.cons d).compareNatural (pivot.cons c) = (d.compareNatural c).then (k.compareNatural pivot) :=
  List.compareLex_cons_cons

private theorem exists_level_cons (pivot k : Key) (c : Cell) (side : Side) :
    (∃ level cell, (pivot.cons c).cells[level]? = some cell ∧
        ((pivot.cons c).levelRange side level cell.column.direction).contains k) ↔
      ((pivot.cons c).levelRange side 0 c.column.direction).contains k ∨
        ∃ level cell, pivot.cells[level]? = some cell ∧
          ((pivot.levelRange side level cell.column.direction).map (cons c)).contains k := by
  constructor
  · rintro ⟨level, cell, hcell, hcontains⟩
    cases level with
    | zero =>
      cases hcell
      exact .inl hcontains
    | succ level =>
      rw [levelRange_cons] at hcontains
      exact .inr ⟨level, cell, hcell, hcontains⟩
  · rintro (hcontains | ⟨level, cell, hcell, hcontains⟩)
    · exact ⟨0, c, rfl, hcontains⟩
    · refine ⟨level + 1, cell, hcell, ?_⟩
      rw [levelRange_cons]
      exact hcontains

private theorem then_eq_ordering_iff (o o' : Ordering) (side : Side) :
    o.then o' = side.ordering ↔ o = side.ordering ∨ o = .eq ∧ o' = side.ordering := by
  cases o <;> cases side <;> simp [Side.ordering]

/-- Keys with the columns of the pivot part from it towards a side if the first of their values that differ do in the
    natural order. -/
theorem exists_level_contains_iff (m m' : Marker) {ps ks : List Cell}
    (hcolumns : (ks.take ps.length).map Cell.column = ps.map Cell.column) (side : Side) :
    (∃ level cell, ps[level]? = some cell ∧
        (levelRange ⟨ps, m⟩ side level cell.column.direction).contains ⟨ks, m'⟩) ↔
      compareNatural ⟨ks, m'⟩ ⟨ps, m⟩ = side.ordering := by
  induction ps generalizing ks with
  | nil =>
    have hequal : compareNatural ⟨ks, m'⟩ ⟨[], m⟩ = .eq := List.compareLex_nil_nil
    rw [hequal]
    cases side <;> simp [Side.ordering]
  | cons c ps ih =>
    cases ks with
    | nil => cases hcolumns
    | cons d ks =>
      obtain ⟨hcolumn, hrest⟩ := List.cons.inj hcolumns
      -- The later levels are those of the shorter pivot, moved behind its first cell.
      have hlater : (∃ level cell, ps[level]? = some cell ∧
          ((levelRange ⟨ps, m⟩ side level cell.column.direction).map (cons c)).contains (cons d ⟨ks, m'⟩)) ↔
          d.compareNatural c = .eq ∧ compareNatural ⟨ks, m'⟩ ⟨ps, m⟩ = side.ordering := by
        rw [← ih hrest]
        simp only [contains_map_cons hcolumn _ (lower_levelRange_ne_unbounded _ _ _ _)
          (upper_levelRange_ne_unbounded _ _ _ _)]
        grind
      refine (exists_level_cons ⟨ps, m⟩ (cons d ⟨ks, m'⟩) c side).trans ?_
      rw [contains_levelRange_zero hcolumn, hlater]
      change _ ↔ (cons d ⟨ks, m'⟩).compareNatural (cons c ⟨ps, m⟩) = side.ordering
      rw [compareNatural_cons_cons, then_eq_ordering_iff]

theorem block_contains_iff (m m' : Marker) {ps ks : List Cell}
    (hcolumns : (ks.take ps.length).map Cell.column = ps.map Cell.column) :
    (block ⟨ps, m⟩).contains ⟨ks, m'⟩ ↔ compareNatural ⟨ks, m'⟩ ⟨ps, m⟩ = .eq := by
  induction ps generalizing ks with
  | nil =>
    have hequal : compareNatural ⟨ks, m'⟩ ⟨[], m⟩ = .eq := List.compareLex_nil_nil
    rw [hequal]
    exact iff_of_true ((Range.contains_iff empty.block ⟨ks, m'⟩).mpr (block_empty_covers_before _)) rfl
  | cons c ps ih =>
    cases ks with
    | nil => cases hcolumns
    | cons d ks =>
      obtain ⟨hcolumn, hrest⟩ := List.cons.inj hcolumns
      have hmap := contains_map_cons hcolumn ⟨ks, m'⟩ (r := block ⟨ps, m⟩) nofun nofun
      refine hmap.trans ?_
      change _ ↔ (cons d ⟨ks, m'⟩).compareNatural (cons c ⟨ps, m⟩) = .eq
      rw [compareNatural_cons_cons, Ordering.then_eq_eq, ih hrest]

section Columns

variable {pivot k : Key} (hcolumns : k.columns.take pivot.length = pivot.columns)
include hcolumns

theorem contains_sideRanges_iff (side : Side) (includePivot : Bool) :
    (pivot.sideRanges side includePivot).contains k ↔
      k.compareNatural pivot = side.ordering ∨ includePivot ∧ k.compareNatural pivot = .eq := by
  have hcells : (k.cells.take pivot.cells.length).map Cell.column = pivot.cells.map Cell.column :=
    List.map_take.trans hcolumns
  have hlevels : pivot.PartsBefore side pivot.length (.before k) ↔ k.compareNatural pivot = side.ordering := by
    rw [← exists_level_contains_iff pivot.marker k.marker hcells side]
    constructor
    · rintro ⟨level, cell, _, hcell, hlevel⟩
      exact ⟨level, cell, hcell, (Range.contains_iff _ _).mpr hlevel⟩
    · rintro ⟨level, cell, hcell, hlevel⟩
      exact ⟨level, cell, (List.getElem?_eq_some_iff.mp hcell).1, hcell, (Range.contains_iff _ _).mp hlevel⟩
  rw [contains_sideRanges_iff_partsBefore, hlevels, ← block_contains_iff pivot.marker k.marker hcells,
    Range.contains_iff]

theorem contains_ofRange_block_iff : (RangeSet.ofRange pivot.block).contains k ↔ k.compareNatural pivot = .eq := by
  have hpivot := along_cellOf_left pivot k
  have hk := along_cellOf_right pivot k
  have hblock := within_block hpivot
  have hcells : (k.cells.take pivot.cells.length).map Cell.column = pivot.cells.map Cell.column :=
    List.map_take.trans hcolumns
  rw [(RangeSet.within_ofRange hblock).contains_iff hk, ← block_contains_iff pivot.marker k.marker hcells,
    Range.contains_iff]
  exact RangeSet.covers_ofRange_within hblock (.before ⟨k, hk⟩)

theorem contains_union_sideRanges_iff :
    ((pivot.sideRanges .below false).union (pivot.sideRanges .above false)).contains k ↔
      k.compareNatural pivot ≠ .eq := by
  have hpivot := along_cellOf_left pivot k
  have hk := along_cellOf_right pivot k
  rw [(within_sideRanges hpivot .below false).contains_union (within_sideRanges hpivot .above false) hk,
    Bool.or_eq_true, contains_sideRanges_iff hcolumns, contains_sideRanges_iff hcolumns]
  cases k.compareNatural pivot <;> simp [Side.ordering]

end Columns

/-- The relations select, among keys with the columns of the pivot, those whose values stand in the relation in the
    natural order, whatever the directions of the columns and however ill-formed the values. A bound as pivot stands
    just below or just above the keys with its values; nothing equals it. -/
theorem relations_follow_natural_order (pivot k : Key) (hcolumns : k.columns.take pivot.length = pivot.columns) :
    (pivot.atMost.contains k ↔
      k.compareNatural pivot = .lt ∨ k.compareNatural pivot = .eq ∧ pivot.marker ≠ .bottom) ∧
    (pivot.lessThan.contains k ↔
      k.compareNatural pivot = .lt ∨ k.compareNatural pivot = .eq ∧ pivot.marker = .top) ∧
    (pivot.atLeast.contains k ↔
      k.compareNatural pivot = .gt ∨ k.compareNatural pivot = .eq ∧ pivot.marker ≠ .top) ∧
    (pivot.greaterThan.contains k ↔
      k.compareNatural pivot = .gt ∨ k.compareNatural pivot = .eq ∧ pivot.marker = .bottom) ∧
    (pivot.marker = .regular →
      (pivot.equalTo.contains k ↔ k.compareNatural pivot = .eq) ∧
      (pivot.notEqualTo.contains k ↔ k.compareNatural pivot ≠ .eq)) ∧
    (pivot.marker ≠ .regular → ∀ other : Key,
      pivot.equalTo.contains other = false ∧ pivot.notEqualTo.contains other = true) := by
  have hbottom : pivot.isBottom ↔ pivot.marker = .bottom := decide_eq_true_iff
  have htop : pivot.isTop ↔ pivot.marker = .top := decide_eq_true_iff
  refine ⟨?_, ?_, ?_, ?_, ?_, ?_⟩
  · rw [atMost, contains_sideRanges_iff hcolumns, Bool.not_eq_true', ← Bool.not_eq_true, hbottom, and_comm]
    exact Iff.rfl
  · rw [lessThan, contains_sideRanges_iff hcolumns, htop, and_comm]
    exact Iff.rfl
  · rw [atLeast, contains_sideRanges_iff hcolumns, Bool.not_eq_true', ← Bool.not_eq_true, htop, and_comm]
    exact Iff.rfl
  · rw [greaterThan, contains_sideRanges_iff hcolumns, hbottom, and_comm]
    exact Iff.rfl
  · intro hregular
    have hkey : pivot.isEndpoint = false := decide_eq_false (not_not_intro hregular)
    have hlessThan : pivot.lessThan = pivot.sideRanges .below false := by
      rw [lessThan, isTop, hregular]
      rfl
    have hgreaterThan : pivot.greaterThan = pivot.sideRanges .above false := by
      rw [greaterThan, isBottom, hregular]
      rfl
    rw [equalTo, notEqualTo, hkey, hlessThan, hgreaterThan]
    exact ⟨contains_ofRange_block_iff hcolumns, contains_union_sideRanges_iff hcolumns⟩
  · intro hendpoint other
    have hbound : pivot.isEndpoint := decide_eq_true hendpoint
    rw [equalTo, notEqualTo, if_pos hbound, if_pos hbound]
    exact ⟨rfl, rfl⟩

theorem relations_follow_natural_order_of_short_year :
    let year := Column.ofClustering "ks" "logs" "year" .int .desc 0
    let month := Column.ofClustering "ks" "logs" "month" .tinyint .asc 1
    let pivot : Key := ⟨[⟨year, [7, 232]⟩], .top⟩
    let k : Key := ⟨[⟨year, [7, 232]⟩, ⟨month, [3]⟩], .regular⟩
    k.columns.take pivot.length = pivot.columns ∧ k.compareNatural pivot = .eq ∧ pivot.lessThan.contains k ∧
      ¬ pivot.atLeast.contains k ∧ pivot.notEqualTo.contains k = true := by
  intro year month pivot k
  have hcolumns : k.columns.take pivot.length = pivot.columns := rfl
  have hequal : k.compareNatural pivot = .eq := by decide +kernel
  obtain ⟨_, hlessThan, hatLeast, _, _, hendpoint⟩ := relations_follow_natural_order pivot k hcolumns
  refine ⟨hcolumns, hequal, hlessThan.mpr (.inr ⟨hequal, rfl⟩), ?_, (hendpoint nofun k).2⟩
  intro hcontains
  rcases hatLeast.mp hcontains with hgreater | ⟨_, htop⟩
  · cases hequal.symm.trans hgreater
  · exact htop rfl

end Key

/-- What the outcome of comparing a value with the pivot must be for the value to stand in the relation. -/
def Relation.holds : Relation → Ordering → Bool
  | atMost, o => o.isLE
  | lessThan, o => o.isLT
  | atLeast, o => o.isGE
  | greaterThan, o => o.isGT
  | equalTo, o => o.isEq
  | notEqualTo, o => o.isNe

theorem Relation.contains_keys (relation : Relation) {pivot k : Key} (hregular : pivot.marker = .regular)
    (hcolumns : k.columns.take pivot.length = pivot.columns) :
    (relation.keys pivot).contains k = relation.holds (k.compareNatural pivot) := by
  obtain ⟨cells, marker⟩ := pivot
  obtain rfl : marker = .regular := hregular
  have hbelow := Key.contains_sideRanges_iff hcolumns .below
  have habove := Key.contains_sideRanges_iff hcolumns .above
  have hblock := Key.contains_ofRange_block_iff hcolumns
  have hbeside := Key.contains_union_sideRanges_iff hcolumns
  rw [Bool.eq_iff_iff]
  cases relation with
  | atMost =>
    refine (hbelow true).trans ?_
    cases k.compareNatural ⟨cells, .regular⟩ <;> simp [holds, Side.ordering]
  | lessThan =>
    refine (hbelow false).trans ?_
    cases k.compareNatural ⟨cells, .regular⟩ <;> simp [holds, Side.ordering]
  | atLeast =>
    refine (habove true).trans ?_
    cases k.compareNatural ⟨cells, .regular⟩ <;> simp [holds, Side.ordering]
  | greaterThan =>
    refine (habove false).trans ?_
    cases k.compareNatural ⟨cells, .regular⟩ <;> simp [holds, Side.ordering]
  | equalTo =>
    refine hblock.trans ?_
    cases k.compareNatural ⟨cells, .regular⟩ <;> simp [holds]
  | notEqualTo =>
    refine hbeside.trans ?_
    cases k.compareNatural ⟨cells, .regular⟩ <;> simp [holds]

end ClusteringKeys
