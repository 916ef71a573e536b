import ClusteringKeys.Proofs.Key.Columns
import ClusteringKeys.Proofs.Relation.Levels
import Mathlib

namespace ClusteringKeys

/-- What is left of the whole above a finer inner part is more, so all that lies at most in the finer part lies at most
    in the coarser one. -/
theorem Splits.below_or_inner {whole below inner above below' inner' above' : Prop} (h : Splits whole below inner above)
    (h' : Splits whole below' inner' above') (habove : above' → above) (hx : below ∨ inner) : below' ∨ inner' := by
  have hnot : ¬ above' := by
    intro hx'
    rcases hx with hbelow | hinner
    · exact h.below_above hbelow (habove hx')
    · exact h.inner_above hinner (habove hx')
  have hwhole : whole := h.cover.mpr (hx.imp_right .inl)
  exact (h'.cover.mp hwhole).imp_right fun hrest => hrest.resolve_right hnot

/-- The side of a pivot on which a beginning of it falls, or a bound of that beginning: the values of the beginning
    settle nothing, and the direction of the first column that it lacks decides. -/
def Side.ofBeginning : Direction → Marker → Side
  | .asc, .bottom | .asc, .regular | .desc, .top => below
  | .desc, .bottom | .desc, .regular | .asc, .top => above

namespace Key

theorem levelRange_ofBeginning_bottom (pivot : Key) (level : Nat) (direction : Direction) :
    pivot.levelRange (.ofBeginning direction .bottom) level direction =
      .closedOpen (pivot.take level).bottom (pivot.take (level + 1)).bottom := by
  cases direction <;> rfl

theorem levelRange_ofBeginning_top (pivot : Key) (level : Nat) (direction : Direction) :
    pivot.levelRange (.ofBeginning direction .top) level direction =
      .openClosed (pivot.take (level + 1)).top (pivot.take level).top := by
  cases direction <;> rfl

theorem levelRange_take (pivot : Key) (side : Side) {level n : Nat} (h : level < n) (direction : Direction) :
    (pivot.take n).levelRange side level direction = pivot.levelRange side level direction := by
  have htake : ∀ m ≤ n, (pivot.take n).take m = pivot.take m := by
    intro m hm
    rw [take, take, take, List.take_take, Nat.min_eq_left hm]
  rw [levelRange, levelRange, htake _ h.le, htake _ h]

/-- Keys part from a beginning of the pivot where they part from the pivot itself. -/
theorem partsBefore_of_take {pivot : Key} {side : Side} {n : Nat} {c : Cut Key}
    (h : (pivot.take n).PartsBefore side (pivot.take n).length c) : pivot.PartsBefore side pivot.length c := by
  obtain ⟨level, cell, _, hcell, hcovers⟩ := h
  have hlevel : level < n := by
    by_contra hle
    rw [take, List.getElem?_take, if_neg hle] at hcell
    cases hcell
  rw [take, List.getElem?_take, if_pos hlevel] at hcell
  rw [levelRange_take pivot side hlevel] at hcovers
  exact ⟨level, cell, (List.getElem?_eq_some_iff.mp hcell).1, hcell, hcovers⟩

section Contains

variable {p x : Key}

theorem contains_sideRanges_of_take (n : Nat) (side : Side) (includePivot : Bool)
    (hcontains : ((p.take n).sideRanges side false).contains x) : (p.sideRanges side includePivot).contains x := by
  rw [contains_sideRanges_iff_partsBefore, or_iff_left (fun hblock => nomatch hblock.1)] at hcontains
  exact (contains_sideRanges_iff_partsBefore p x side includePivot).mpr (.inl (partsBefore_of_take hcontains))

theorem contains_take_of_sideRanges (n : Nat) (side : Side) (includePivot : Bool)
    (hcontains : (p.sideRanges side includePivot).contains x) : ((p.take n).sideRanges side true).contains x := by
  have hsplits := splits_pivot_before p x
  have hsplitsTake := splits_pivot_before (p.take n) x
  rw [contains_sideRanges_iff_partsBefore] at hcontains
  rw [contains_sideRanges_iff_partsBefore, and_iff_right rfl]
  have hside := hcontains.imp_right And.right
  cases side with
  | below => exact hsplits.below_or_inner hsplitsTake partsBefore_of_take hside
  | above => exact hsplits.swap.below_or_inner hsplitsTake.swap partsBefore_of_take hside

theorem contains_sideRanges_mono (side : Side) {includePivot includePivot' : Bool}
    (hinclude : includePivot → includePivot') (hcontains : (p.sideRanges side includePivot).contains x) :
    (p.sideRanges side includePivot').contains x := by
  rw [contains_sideRanges_iff_partsBefore] at hcontains ⊢
  exact hcontains.imp_right (And.imp_left hinclude)

/-- What parts from the pivot is on the side to which it parts, and on no other. -/
theorem contains_sideRanges_iff_of_partsBefore {side : Side} (hparts : p.PartsBefore side p.length (.before x))
    (side' : Side) (includePivot : Bool) : (p.sideRanges side' includePivot).contains x ↔ side' = side := by
  have hsplits := splits_pivot_before p x
  rw [contains_sideRanges_iff_partsBefore]
  constructor
  · intro hcontains
    have hside' := hcontains.imp_right And.right
    cases side with
    | below =>
      cases side' with
      | below => rfl
      | above => exact absurd (hside'.resolve_right (hsplits.below_inner hparts)) (hsplits.below_above hparts)
    | above =>
      cases side' with
      | below => exact absurd hparts (hside'.elim hsplits.below_above hsplits.inner_above)
      | above => rfl
  · rintro rfl
    exact .inl hparts

end Contains

/-- A pivot with more values narrows the relations that take in its block and widens those that leave it out. This
    holds of keys and bounds of any columns, and of bounds as pivots too. -/
theorem beginnings_enclose_relations (p : Key) (n : Nat) (x : Key) :
    ((p.take n).lessThan.contains x → p.lessThan.contains x) ∧
    (p.lessThan.contains x → p.atMost.contains x) ∧
    (p.atMost.contains x → (p.take n).atMost.contains x) ∧
    ((p.take n).greaterThan.contains x → p.greaterThan.contains x) ∧
    (p.greaterThan.contains x → p.atLeast.contains x) ∧
    (p.atLeast.contains x → (p.take n).atLeast.contains x) := by
  have hnotBoth : p.isTop → !p.isBottom := by
    rw [isTop, isBottom]
    cases p.marker <;> decide
  have hnotBoth' : p.isBottom → !p.isTop := by
    rw [isTop, isBottom]
    cases p.marker <;> decide
  exact ⟨contains_sideRanges_of_take n .below _, contains_sideRanges_mono .below hnotBoth,
    contains_take_of_sideRanges n .below _, contains_sideRanges_of_take n .above _,
    contains_sideRanges_mono .above hnotBoth', contains_take_of_sideRanges n .above _⟩

theorem beginnings_enclose_relations_of_short_year :
    let year := Column.ofClustering "ks" "logs" "year" .int .desc 0
    let month := Column.ofClustering "ks" "logs" "month" .tinyint .asc 1
    let day := Column.ofClustering "ks" "logs" "day" .tinyint .desc 2
    let p : Key := ⟨[⟨year, [7, 232]⟩, ⟨month, [3]⟩], .regular⟩
    let x : Key := ⟨[⟨year, [7, 232]⟩, ⟨month, [3]⟩, ⟨day, [1]⟩], .top⟩
    let y : Key := ⟨[⟨year, [7, 231]⟩], .bottom⟩
    let z : Key := ⟨[⟨year, [7, 233]⟩], .bottom⟩
    (p.atMost.contains x ∧ ¬ p.lessThan.contains x ∧ (p.take 1).atMost.contains x ∧
      (p.take 1).lessThan.contains y ∧ p.lessThan.contains y ∧ p.atMost.contains y) ∧
    (p.atLeast.contains x ∧ ¬ p.greaterThan.contains x ∧ (p.take 1).atLeast.contains x ∧
      (p.take 1).greaterThan.contains z ∧ p.greaterThan.contains z ∧ p.atLeast.contains z) := by
  intro year month day p x y z
  have hmost : p.atMost.contains x := by decide +kernel
  have hnotLess : ¬ p.lessThan.contains x := by decide +kernel
  have hless : (p.take 1).lessThan.contains y := by decide +kernel
  have hleast : p.atLeast.contains x := by decide +kernel
  have hnotGreater : ¬ p.greaterThan.contains x := by decide +kernel
  have hgreater : (p.take 1).greaterThan.contains z := by decide +kernel
  obtain ⟨_, _, htakeMost, _, _, htakeLeast⟩ := beginnings_enclose_relations p 1 x
  obtain ⟨hpLess, hpMost, _⟩ := beginnings_enclose_relations p 1 y
  obtain ⟨_, _, _, hpGreater, hpLeast, _⟩ := beginnings_enclose_relations p 1 z
  exact ⟨⟨hmost, hnotLess, htakeMost hmost, hless, hpLess hless, hpMost (hpLess hless)⟩,
    hleast, hnotGreater, htakeLeast hleast, hgreater, hpGreater hgreater, hpLeast (hpGreater hgreater)⟩

theorem contains_levelRange_ofBeginning {p : Key} {m : Nat} {cell : Cell} (hcell : p.cells[m]? = some cell)
    (direction : Direction) (marker : Marker) :
    (p.levelRange (.ofBeginning direction marker) m direction).contains ⟨p.cells.take m, marker⟩ := by
  have hcells : p.cells.take (m + 1) = p.cells.take m ++ [cell] := cells_take_succ hcell
  have hlonger (marker' : Marker) :
      Ord.compare (⟨p.cells.take m, marker⟩ : Key) ⟨p.cells.take (m + 1), marker'⟩ = marker.againstExtension := by
    rw [hcells]
    exact compare_append_cell (p.cells.take m) cell marker marker'
  have hmarkers := compare_markers (p.cells.take m) marker
  have hbelow (hmarker : marker ≠ .top) :
      (Range.closedOpen (p.take m).bottom (p.take (m + 1)).bottom).contains ⟨p.cells.take m, marker⟩ := by
    change ((Ord.compare (⟨p.cells.take m, marker⟩ : Key) ⟨p.cells.take m, .bottom⟩).isGE &&
      (Ord.compare (⟨p.cells.take m, marker⟩ : Key) ⟨p.cells.take (m + 1), .bottom⟩).isLT) = true
    rw [hlonger, hmarkers]
    cases marker with
    | bottom | regular => rfl
    | top => exact absurd rfl hmarker
  cases marker with
  | bottom =>
    rw [levelRange_ofBeginning_bottom]
    exact hbelow (by decide)
  | regular =>
    -- A key that lacks the column falls where its bottom does.
    have hside : Side.ofBeginning direction .regular = .ofBeginning direction .bottom := by
      cases direction <;> rfl
    rw [hside, levelRange_ofBeginning_bottom]
    exact hbelow (by decide)
  | top =>
    rw [levelRange_ofBeginning_top]
    change ((Ord.compare (⟨p.cells.take m, .top⟩ : Key) ⟨p.cells.take (m + 1), .top⟩).isGT &&
      (Ord.compare (⟨p.cells.take m, .top⟩ : Key) ⟨p.cells.take m, .top⟩).isLE) = true
    rw [hlonger, hmarkers]
    rfl

theorem contains_sideRanges_beginning {p : Key} {m : Nat} {cell : Cell} (hcell : p.cells[m]? = some cell) (side : Side)
    (includePivot : Bool) (marker : Marker) :
    (p.sideRanges side includePivot).contains ⟨p.cells.take m, marker⟩ ↔
      side = .ofBeginning cell.column.direction marker := by
  have hlevel := contains_levelRange_ofBeginning hcell cell.column.direction marker
  have hparts : p.PartsBefore (.ofBeginning cell.column.direction marker) p.length (.before ⟨p.cells.take m, marker⟩) :=
    ⟨m, cell, (List.getElem?_eq_some_iff.mp hcell).1, hcell, (Range.contains_iff _ _).mp hlevel⟩
  exact contains_sideRanges_iff_of_partsBefore hparts side includePivot

/-- A beginning of the pivot that lacks some of its columns falls on one side of the pivot by the direction of the first
    column that it lacks, as does its bottom, and its top on the other side. Neither the later columns nor the values
    nor the marker of the pivot matter. -/
theorem beginnings_fall_by_next_direction (p : Key) {m : Nat} (hm : m < p.columns.length) :
    let q := p.take m
    let direction := p.columns[m].direction
    (∀ keys ∈ [p.atMost, p.lessThan],
      (keys.contains q ↔ direction = .asc) ∧ (keys.contains q.bottom ↔ direction = .asc) ∧
        (keys.contains q.top ↔ direction = .desc)) ∧
    (∀ keys ∈ [p.atLeast, p.greaterThan],
      (keys.contains q ↔ direction = .desc) ∧ (keys.contains q.bottom ↔ direction = .desc) ∧
        (keys.contains q.top ↔ direction = .asc)) := by
  intro q direction
  have hlength : m < p.cells.length := by rwa [length_columns] at hm
  have hcell : p.cells[m]? = some p.cells[m] := List.getElem?_eq_getElem hlength
  have hdirection : p.cells[m].column.direction = direction := by
    simp [direction, columns]
  have hside (side : Side) (includePivot : Bool) (marker : Marker) :
      (p.sideRanges side includePivot).contains ⟨p.cells.take m, marker⟩ ↔ side = .ofBeginning direction marker := by
    rw [← hdirection]
    exact contains_sideRanges_beginning hcell side includePivot marker
  have hbelow (includePivot : Bool) :
      ((p.sideRanges .below includePivot).contains q ↔ direction = .asc) ∧
      ((p.sideRanges .below includePivot).contains q.bottom ↔ direction = .asc) ∧
      ((p.sideRanges .below includePivot).contains q.top ↔ direction = .desc) := by
    refine ⟨(hside .below includePivot .regular).trans ?_, (hside .below includePivot .bottom).trans ?_,
      (hside .below includePivot .top).trans ?_⟩
    all_goals cases direction <;> decide
  have habove (includePivot : Bool) :
      ((p.sideRanges .above includePivot).contains q ↔ direction = .desc) ∧
      ((p.sideRanges .above includePivot).contains q.bottom ↔ direction = .desc) ∧
      ((p.sideRanges .above includePivot).contains q.top ↔ direction = .asc) := by
    refine ⟨(hside .above includePivot .regular).trans ?_, (hside .above includePivot .bottom).trans ?_,
      (hside .above includePivot .top).trans ?_⟩
    all_goals cases direction <;> decide
  exact ⟨List.forall_mem_cons.mpr ⟨hbelow _, List.forall_mem_singleton.mpr (hbelow _)⟩,
    List.forall_mem_cons.mpr ⟨habove _, List.forall_mem_singleton.mpr (habove _)⟩⟩

/-- The descending month decides where the year alone falls, and not the ascending year. -/
theorem beginnings_fall_by_next_direction_of_short_year :
    let year := Column.ofClustering "ks" "logs" "year" .int .asc 0
    let month := Column.ofClustering "ks" "logs" "month" .tinyint .desc 1
    let p : Key := ⟨[⟨year, [7, 232]⟩, ⟨month, [3]⟩], .bottom⟩
    1 < p.columns.length ∧ p.atLeast.contains (p.take 1) ∧ ¬ p.atMost.contains (p.take 1) ∧
      p.atMost.contains (p.take 1).top := by
  intro year month p
  have hm : 1 < p.columns.length := by decide
  obtain ⟨hbelow, habove⟩ := beginnings_fall_by_next_direction p hm
  obtain ⟨hkey, _, htop⟩ := hbelow p.atMost List.mem_cons_self
  obtain ⟨hkey', _⟩ := habove p.atLeast List.mem_cons_self
  have hnot : ¬ p.atMost.contains (p.take 1) := by
    intro hcontains
    cases hkey.mp hcontains
  exact ⟨hm, hkey'.mpr rfl, hnot, htop.mpr rfl⟩

end Key

end ClusteringKeys
