import ClusteringKeys.Proofs.RangeSet.Cover
import ClusteringKeys.Proofs.Sorting
import Mathlib

namespace ClusteringKeys.RangeSet

variable {α : Type} [Ord α]

/-- Some range of the set covers the cut. -/
def Covers (s : RangeSet α) (c : Cut α) : Prop :=
  ∃ r ∈ s.ranges, r.Covers c

/-- The form that every operation leaves a set in: no range is empty, and each stops before the next one starts, with
    a gap between them. -/
structure Canonical (s : RangeSet α) : Prop where
  nonempty : ∀ r ∈ s.ranges, r.Nonempty
  apart : s.ranges.Pairwise fun r t => r.stop < t.start

theorem canonical_empty : (empty : RangeSet α).Canonical :=
  ⟨List.forall_mem_nil _, .nil⟩

theorem not_covers_empty (c : Cut α) : ¬ (empty : RangeSet α).Covers c :=
  fun ⟨_, hr, _⟩ => nomatch hr

variable [Std.TransOrd α]

theorem contains_iff (s : RangeSet α) (x : α) : s.contains x ↔ s.Covers (.before x) := by
  simp only [contains, List.any_eq_true, Covers, Range.contains_iff]

/-- Joining ranges in order of their starts neither gains nor loses a cut. The pending range has the least start, so
    where it does not meet the next range it meets no later one. -/
theorem covers_joinFrom {pending : Range α} {rest : List (Range α)}
    (hsorted : (pending :: rest).Pairwise fun r t => r.start ≤ t.start) (c : Cut α) :
    (∃ r ∈ joinFrom pending rest, r.Covers c) ↔ pending.Covers c ∨ ∃ r ∈ rest, r.Covers c := by
  induction rest generalizing pending with
  | nil => simp [joinFrom]
  | cons r rest ih =>
    obtain ⟨hfirst, hrest⟩ := List.pairwise_cons.mp hsorted
    have hstart : pending.start ≤ r.start := hfirst r List.mem_cons_self
    rw [joinFrom]
    split
    next hmeets =>
      have hmeets : r.start ≤ pending.stop := (Endpoint.connects_iff _ _).mp hmeets
      have hjoined : (pending.extendUpTo r :: rest).Pairwise fun r t => r.start ≤ t.start := by
        refine List.pairwise_cons.mpr ⟨fun t ht => ?_, (List.pairwise_cons.mp hrest).2⟩
        rw [Range.start_extendUpTo]
        exact hfirst t (List.mem_cons_of_mem r ht)
      rw [ih hjoined, Range.covers_extendUpTo hstart hmeets]
      simp [or_assoc]
    next => simp [ih hrest]

theorem start_le_of_mem_joinFrom {pending : Range α} {rest : List (Range α)}
    (hsorted : (pending :: rest).Pairwise fun r t => r.start ≤ t.start) {t : Range α}
    (ht : t ∈ joinFrom pending rest) : pending.start ≤ t.start := by
  induction rest generalizing pending with
  | nil =>
    rw [joinFrom, List.mem_singleton] at ht
    rw [ht]
    exact Std.le_refl _
  | cons r rest ih =>
    obtain ⟨hfirst, hrest⟩ := List.pairwise_cons.mp hsorted
    rw [joinFrom] at ht
    split at ht
    next =>
      rw [← Range.start_extendUpTo pending r]
      refine ih (List.pairwise_cons.mpr ⟨fun u hu => ?_, (List.pairwise_cons.mp hrest).2⟩) ht
      rw [Range.start_extendUpTo]
      exact hfirst u (List.mem_cons_of_mem r hu)
    next =>
      rcases List.mem_cons.mp ht with rfl | ht
      · exact Std.le_refl _
      · exact Std.le_trans (hfirst r List.mem_cons_self) (ih hrest ht)

/-- Joined ranges stay nonempty and have gaps between them. -/
theorem canonical_joinFrom {pending : Range α} {rest : List (Range α)}
    (hsorted : (pending :: rest).Pairwise fun r t => r.start ≤ t.start)
    (hnonempty : ∀ r ∈ pending :: rest, r.Nonempty) : Canonical ⟨joinFrom pending rest⟩ := by
  induction rest generalizing pending with
  | nil =>
    refine ⟨?_, List.pairwise_singleton _ _⟩
    simpa [joinFrom] using hnonempty
  | cons r rest ih =>
    obtain ⟨hfirst, hrest⟩ := List.pairwise_cons.mp hsorted
    obtain ⟨hpending, hothers⟩ := List.forall_mem_cons.mp hnonempty
    rw [joinFrom]
    split
    next =>
      refine ih (List.pairwise_cons.mpr ⟨fun t ht => ?_, (List.pairwise_cons.mp hrest).2⟩)
        (List.forall_mem_cons.mpr ⟨?_, (List.forall_mem_cons.mp hothers).2⟩)
      · rw [Range.start_extendUpTo]
        exact hfirst t (List.mem_cons_of_mem r ht)
      · rw [Range.Nonempty, Range.start_extendUpTo]
        exact Std.lt_of_lt_of_le hpending (Range.stop_le_extendUpTo pending r)
    next hgap =>
      have hgap : pending.stop < r.start := Std.not_le.mp (mt (Endpoint.connects_iff _ _).mpr hgap)
      obtain ⟨hnonemptyRest, hapartRest⟩ := ih hrest hothers
      refine ⟨List.forall_mem_cons.mpr ⟨hpending, hnonemptyRest⟩, List.pairwise_cons.mpr ⟨?_, hapartRest⟩⟩
      intro t ht
      exact Std.lt_of_lt_of_le hgap (start_le_of_mem_joinFrom hrest ht)

private instance : Std.TransCmp fun r s : Range α => r.lower.compareLower s.lower := by
  simp only [Endpoint.compareLower_eq]
  exact inferInstanceAs (Std.TransCmp (compareOn Range.start))

private theorem pairwise_start_stableSort (ranges : List (Range α)) :
    (stableSort (fun r s => r.lower.compareLower s.lower) ranges).Pairwise fun r t => r.start ≤ t.start := by
  refine (pairwise_stableSort _ ranges).imp fun h => ?_
  rw [Endpoint.compareLower_eq] at h
  exact h

/-- Sorting and joining neither gains nor loses a cut. -/
theorem covers_ofRanges (ranges : List (Range α)) (c : Cut α) :
    (ofRanges ranges).Covers c ↔ ∃ r ∈ ranges, r.Covers c := by
  have hsorted := pairwise_start_stableSort ranges
  have hperm := stableSort_perm (fun r s => r.lower.compareLower s.lower) ranges
  have hjoin : ∀ sorted : List (Range α), (sorted.Pairwise fun r t => r.start ≤ t.start) →
      ((∃ r ∈ join sorted, r.Covers c) ↔ ∃ r ∈ sorted, r.Covers c) := by
    intro sorted hsorted
    cases sorted with
    | nil => exact Iff.rfl
    | cons r rest => simp [join, covers_joinFrom hsorted]
  rw [Covers, ofRanges, hjoin _ hsorted]
  simp only [hperm.mem_iff]

/-- Sorting and joining ranges that are not empty gives a set in canonical form. -/
theorem canonical_ofRanges {ranges : List (Range α)} (hnonempty : ∀ r ∈ ranges, r.Nonempty) :
    (ofRanges ranges).Canonical := by
  have hsorted := pairwise_start_stableSort ranges
  have hperm := stableSort_perm (fun r s => r.lower.compareLower s.lower) ranges
  rw [ofRanges]
  cases hsort : stableSort (fun r s => r.lower.compareLower s.lower) ranges with
  | nil => exact canonical_empty
  | cons r rest =>
    rw [hsort] at hsorted hperm
    exact canonical_joinFrom hsorted fun t ht => hnonempty t (hperm.mem_iff.mp ht)

end ClusteringKeys.RangeSet
