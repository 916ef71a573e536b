import ClusteringKeys.Proofs.Relation.Levels
import Mathlib

namespace ClusteringKeys.Key

section Along

variable {P : Nat → Cell → Prop} [Std.TransOrd (Subtype (Along P))]

/-- Opposite sides of a pivot, of which one takes in its block, are complements of each other. -/
theorem covers_sideRanges_above {p : Key} (h : p.Along P) (inBelow : Bool) (c : Cut (Subtype (Along P))) :
    (p.sideRanges .above !inBelow).Covers (c.map Subtype.val) ↔
      empty.block.Covers (c.map Subtype.val) ∧ ¬ (p.sideRanges .below inBelow).Covers (c.map Subtype.val) := by
  rw [covers_sideRanges h, covers_sideRanges h]
  exact (splits_pivot h c).above_iff inBelow

end Along

theorem intersection_sideRanges (p : Key) (inBelow : Bool) :
    (p.sideRanges .below inBelow).intersection (p.sideRanges .above !inBelow) = .empty := by
  have hp := along_cellOf_left p p
  have hbelow := within_sideRanges hp .below inBelow
  have habove := within_sideRanges hp .above !inBelow
  apply (hbelow.intersection habove).eq_of_covers RangeSet.within_empty
  intro c
  rw [hbelow.covers_intersection habove, covers_sideRanges_above hp]
  apply iff_of_false
  · rintro ⟨hcovers, _, hnot⟩
    exact hnot hcovers
  · exact RangeSet.not_covers_empty _

theorem union_sideRanges (p : Key) (inBelow : Bool) :
    (p.sideRanges .below inBelow).union (p.sideRanges .above !inBelow) = .ofRange empty.block := by
  have hp := along_cellOf_left p p
  have hbelow := within_sideRanges hp .below inBelow
  have habove := within_sideRanges hp .above !inBelow
  have hempty := within_block (P := CellOf p p) along_empty
  apply (hbelow.union habove).eq_of_covers (RangeSet.within_ofRange hempty)
  intro c
  rw [hbelow.covers_union habove, covers_sideRanges_above hp, RangeSet.covers_ofRange_within hempty]
  constructor
  · rintro (hbelow | ⟨hwhole, _⟩)
    · exact covers_empty_block_of_sideRanges hp hbelow
    · exact hwhole
  · intro hwhole
    by_cases hcovers : (p.sideRanges .below inBelow).Covers (c.map Subtype.val)
    · exact .inl hcovers
    · exact .inr ⟨hwhole, hcovers⟩

/-- Every key and bound, of whatever columns, is on one of the opposite sides and not on the other. -/
theorem contains_sideRanges_above (p x : Key) (inBelow : Bool) :
    (p.sideRanges .above !inBelow).contains x = !(p.sideRanges .below inBelow).contains x := by
  have habove := (splits_pivot_before p x).above_iff inBelow
  rw [Bool.eq_iff_iff, Bool.not_eq_true', ← Bool.not_eq_true, contains_sideRanges_iff_partsBefore,
    contains_sideRanges_iff_partsBefore]
  exact habove.trans (and_iff_right (block_empty_covers_before x))

/-- The two sides that both take in the block of the pivot meet in it. -/
theorem intersection_sideRanges_true (p : Key) :
    (p.sideRanges .above true).intersection (p.sideRanges .below true) = .ofRange p.block := by
  have hp := along_cellOf_left p p
  have hbelow := within_sideRanges hp .below true
  have habove := within_sideRanges hp .above true
  apply (habove.intersection hbelow).eq_of_covers (RangeSet.within_ofRange (within_block hp))
  intro c
  have hsplits := splits_pivot hp c
  rw [habove.covers_intersection hbelow, covers_sideRanges hp, covers_sideRanges hp,
    RangeSet.covers_ofRange_within (within_block hp)]
  constructor
  · rintro ⟨habove | ⟨_, hblock⟩, hbelow | ⟨_, hblock'⟩⟩
    · exact absurd habove (hsplits.below_above hbelow)
    · exact hblock'
    · exact hblock
    · exact hblock
  · intro hblock
    exact ⟨.inr ⟨rfl, hblock⟩, .inr ⟨rfl, hblock⟩⟩

theorem union_sideRanges_block (p : Key) (side : Side) :
    (p.sideRanges side false).union (.ofRange p.block) = p.sideRanges side true := by
  have hp := along_cellOf_left p p
  have hside := within_sideRanges hp side false
  have hblock := RangeSet.within_ofRange (within_block hp)
  apply (hside.union hblock).eq_of_covers (within_sideRanges hp side true)
  intro c
  rw [hside.covers_union hblock, covers_sideRanges hp, covers_sideRanges hp,
    RangeSet.covers_ofRange_within (within_block hp)]
  simp

/-- A cut lies beside the block of the pivot if it lies outside of it. -/
theorem covers_union_sideRanges_false {P : Nat → Cell → Prop} [Std.TransOrd (Subtype (Along P))] {p : Key}
    (h : p.Along P) (c : Cut (Subtype (Along P))) :
    ((p.sideRanges .below false).union (p.sideRanges .above false)).Covers (c.map Subtype.val) ↔
      empty.block.Covers (c.map Subtype.val) ∧ ¬ p.block.Covers (c.map Subtype.val) := by
  rw [(within_sideRanges h .below false).covers_union (within_sideRanges h .above false), covers_sideRanges h,
    covers_sideRanges h, ← (splits_pivot h c).outer_iff]
  simp

theorem compare_empty_bottom_of_not_isEmpty {p : Key} (hp : p.isEmpty = false) :
    compare empty.bottom p.bottom = .lt ∧ compare p.top empty.top = .lt := by
  obtain ⟨cells, marker⟩ := p
  cases cells with
  | nil => cases hp
  | cons cell cells => exact ⟨rfl, rfl⟩

theorem union_sideRanges_false_of_not_isEmpty {p : Key} (hnonempty : p.isEmpty = false) :
    (p.sideRanges .below false).union (p.sideRanges .above false) =
      ⟨[.closedOpen empty.bottom p.bottom, .openClosed p.top empty.top]⟩ := by
  have hp := along_cellOf_left p p
  have hempty : empty.Along (CellOf p p) := along_empty
  obtain ⟨hbottom, htop⟩ := compare_empty_bottom_of_not_isEmpty hnonempty
  have hblock := compare_bottom_top p
  have hwithin : RangeSet.Within (Along (CellOf p p))
      ⟨[.closedOpen empty.bottom p.bottom, .openClosed p.top empty.top]⟩ := by
    refine ⟨⟨[.closedOpen ⟨_, hempty.bottom⟩ ⟨_, hp.bottom⟩, .openClosed ⟨_, hp.top⟩ ⟨_, hempty.top⟩]⟩, ⟨?_, ?_⟩, rfl⟩
    · refine List.forall_mem_cons.mpr ⟨Cut.before_lt_before.mpr hbottom, List.forall_mem_singleton.mpr ?_⟩
      exact Cut.after_lt_after.mpr htop
    · exact List.pairwise_pair.mpr (Cut.before_lt_after.mpr (congrArg Ordering.isLE hblock))
  apply ((within_sideRanges hp .below false).union (within_sideRanges hp .above false)).eq_of_covers hwithin
  intro c
  have hsplits := Range.splits_closed_within hempty.bottom hp.bottom hp.top hempty.top
    (congrArg Ordering.isLE hbottom) (congrArg Ordering.isLE hblock) (congrArg Ordering.isLE htop) c
  have hpair : ∀ r s : Range Key, RangeSet.Covers ⟨[r, s]⟩ (c.map Subtype.val) ↔
      r.Covers (c.map Subtype.val) ∨ s.Covers (c.map Subtype.val) := by
    simp [RangeSet.Covers]
  rw [covers_union_sideRanges_false hp, hpair, hsplits.outer_iff]
  exact Iff.rfl

theorem union_sideRanges_false_of_isEmpty {p : Key} (hempty : p.isEmpty) :
    (p.sideRanges .below false).union (p.sideRanges .above false) = .empty := by
  obtain ⟨cells, marker⟩ := p
  cases cells with
  | nil => rfl
  | cons cell cells => cases hempty

/-- The relations of opposite sides tile the order of all keys and bounds, whatever the directions of the columns and
    however ill-formed the values: they share nothing, and together they are the one range between the outermost
    bounds, so that each key or bound stands in exactly one of them. Those of a key and not a bound meet in the block
    of the key. -/
theorem opposite_relations_tile (p : Key) :
    p.atMost.intersection p.greaterThan = .empty ∧
    p.lessThan.intersection p.atLeast = .empty ∧
    p.atMost.union p.greaterThan = ⟨[.closed Key.empty.bottom Key.empty.top]⟩ ∧
    p.lessThan.union p.atLeast = ⟨[.closed Key.empty.bottom Key.empty.top]⟩ ∧
    (∀ x : Key, p.greaterThan.contains x = !p.atMost.contains x) ∧
    (∀ x : Key, p.atLeast.contains x = !p.lessThan.contains x) ∧
    (p.marker = .regular →
      p.atLeast.intersection p.atMost = p.equalTo ∧
      p.lessThan.union p.equalTo = p.atMost ∧
      p.notEqualTo =
        if p.isEmpty then .empty
        else ⟨[.closedOpen Key.empty.bottom p.bottom, .openClosed p.top Key.empty.top]⟩) := by
  -- Of opposite relations one takes in the block of the pivot, and the other does not.
  have hgreaterThan : p.greaterThan = p.sideRanges .above !!p.isBottom := by
    rw [Bool.not_not]
    rfl
  refine ⟨?_, p.intersection_sideRanges p.isTop, ?_, p.union_sideRanges p.isTop, ?_, ?_, ?_⟩
  · rw [hgreaterThan]
    exact p.intersection_sideRanges _
  · rw [hgreaterThan]
    exact p.union_sideRanges _
  · intro x
    rw [hgreaterThan]
    exact p.contains_sideRanges_above x _
  · intro x
    exact p.contains_sideRanges_above x p.isTop
  · intro hregular
    obtain ⟨cells, marker⟩ := p
    obtain rfl : marker = .regular := hregular
    refine ⟨intersection_sideRanges_true _, union_sideRanges_block _ .below, ?_⟩
    split
    next hempty => exact union_sideRanges_false_of_isEmpty hempty
    next hempty => exact union_sideRanges_false_of_not_isEmpty (Bool.eq_false_iff.mpr hempty)

theorem opposite_relations_tile_of_short_year :
    let year := Column.ofClustering "ks" "logs" "year" .int .desc 0
    let month := Column.ofClustering "ks" "logs" "month" .tinyint .asc 1
    let pivot : Key := ⟨[⟨year, [7, 232]⟩, ⟨month, [3]⟩], .regular⟩
    pivot.marker = .regular ∧ pivot.atLeast.intersection pivot.atMost = pivot.equalTo ∧
      pivot.lessThan.union pivot.equalTo = pivot.atMost ∧
      pivot.notEqualTo = ⟨[.closedOpen Key.empty.bottom pivot.bottom, .openClosed pivot.top Key.empty.top]⟩ := by
  intro year month pivot
  have hregular : pivot.marker = .regular := rfl
  obtain ⟨hmeet, hjoin, hbeside⟩ := (opposite_relations_tile pivot).2.2.2.2.2.2 hregular
  exact ⟨hregular, hmeet, hjoin, hbeside⟩

end ClusteringKeys.Key
