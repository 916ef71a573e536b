import ClusteringKeys.Proofs.RangeSet.Algebra
import Mathlib

namespace ClusteringKeys.RangeSet

variable {α : Type} [Ord α]

/-- The sets that the operations make, one after the other, from ranges of any kind. -/
inductive Built : RangeSet α → Prop where
  | empty : Built empty
  | default : Built default
  | all : Built all
  | ofRange (r : Range α) : Built (ofRange r)
  | add {s : RangeSet α} (r : Range α) : Built s → Built (s.add r)
  | union {s t : RangeSet α} : Built s → Built t → Built (s.union t)
  | intersection {s t : RangeSet α} : Built s → Built t → Built (s.intersection t)

theorem built_foldl_add {s : RangeSet α} (hs : s.Built) (ranges : List (Range α)) : (ranges.foldl add s).Built := by
  induction ranges generalizing s with
  | nil => exact hs
  | cons r ranges ih => exact ih (hs.add r)

variable [Std.TransOrd α]

theorem Built.canonical {s : RangeSet α} (hs : s.Built) : s.Canonical := by
  induction hs with
  | empty | default => exact canonical_empty
  | all => exact canonical_ofRange .all
  | ofRange r => exact canonical_ofRange r
  | add r _ ih => exact ih.add r
  | union _ _ ihs iht => exact ihs.union iht
  | intersection => exact canonical_intersection _ _

namespace Canonical

variable {s : RangeSet α}

theorem pairwise_compareLower (hs : s.Canonical) :
    s.ranges.Pairwise fun r t => r.lower.compareLower t.lower = .lt := by
  refine hs.apart.imp_of_mem fun hr _ hgap => ?_
  exact (Endpoint.compareLower_eq_lt_iff _ _).mpr (Std.lt_trans (hs.nonempty _ hr) hgap)

theorem pairwise_not_connects (hs : s.Canonical) :
    s.ranges.Pairwise fun r t => r.upper.connects t.lower = false := by
  refine hs.apart.imp fun hgap => Bool.eq_false_iff.mpr fun hconnects => ?_
  exact Std.not_le.mpr hgap ((Endpoint.connects_iff _ _).mp hconnects)

theorem pairwise_not_contains (hs : s.Canonical) (x : α) :
    s.ranges.Pairwise fun r t => ¬ (r.contains x ∧ t.contains x) := by
  refine hs.apart.imp fun {r t} hgap => ?_
  rintro ⟨hr, ht⟩
  have hstop := ((r.contains_iff x).mp hr).2
  have hstart := ((t.contains_iff x).mp ht).1
  exact Std.lt_irrefl (Std.lt_of_lt_of_le (Std.lt_trans hstop hgap) hstart)

/-- No range starts below a range before it, so only the first can start below all values. -/
theorem lower_ne_unbounded_of_mem_tail (hs : s.Canonical) : ∀ r ∈ s.ranges.tail, r.lower ≠ .unbounded := by
  obtain ⟨ranges⟩ := s
  cases ranges with
  | nil => exact List.forall_mem_nil _
  | cons first rest =>
    intro r hr hunbounded
    have hgap : first.stop < r.start := (List.pairwise_cons.mp hs.apart).1 r hr
    rw [Range.start, hunbounded] at hgap
    exact Std.not_le.mpr hgap (Cut.bottom_le _)

theorem upper_ne_unbounded_of_mem_dropLast (hs : s.Canonical) :
    ∀ r ∈ s.ranges.dropLast, r.upper ≠ .unbounded := by
  obtain ⟨ranges⟩ := s
  cases ranges using List.reverseRecOn with
  | nil => exact List.forall_mem_nil _
  | append_singleton front last =>
    intro r hr hunbounded
    rw [List.dropLast_concat] at hr
    have hgap : r.stop < last.start := (List.pairwise_append.mp hs.apart).2.2 r hr last List.mem_cons_self
    rw [Range.stop, hunbounded] at hgap
    exact Std.not_le.mpr hgap (Cut.le_top _)

end Canonical

/-- However a set was built, its ranges are not empty, and they ascend with gaps between them: none overlaps or touches
    a later one. So only the first can be unbounded below and only the last above, and no value lies in two. -/
theorem ranges_ascend_with_gaps {s : RangeSet α} (hs : s.Built) :
    (∀ r ∈ s.ranges, r.isEmpty = false) ∧
    (s.ranges.Pairwise fun r t => r.lower.compareLower t.lower = .lt) ∧
    (s.ranges.Pairwise fun r t => r.upper.connects t.lower = false) ∧
    (∀ r ∈ s.ranges.tail, r.lower ≠ .unbounded) ∧
    (∀ r ∈ s.ranges.dropLast, r.upper ≠ .unbounded) ∧
    ∀ x, s.ranges.Pairwise fun r t => ¬ (r.contains x ∧ t.contains x) := by
  have hcanonical := hs.canonical
  refine ⟨?_, hcanonical.pairwise_compareLower, hcanonical.pairwise_not_connects,
    hcanonical.lower_ne_unbounded_of_mem_tail, hcanonical.upper_ne_unbounded_of_mem_dropLast,
    hcanonical.pairwise_not_contains⟩
  intro r hr
  exact (Range.isEmpty_eq_false_iff r).mpr (hcanonical.nonempty r hr)

/-- The union is given the two unbounded ranges in descending order, with the point between them left out. -/
theorem ranges_ascend_with_gaps_around_three :
    let s : RangeSet Int := ((ofRange (.greaterThan 3)).add (.closed 5 4)).union (ofRange (.lessThan 3))
    s.Built ∧ s.ranges = [.lessThan 3, .greaterThan 3] ∧ (∀ r ∈ s.ranges, r.isEmpty = false) ∧
      (s.ranges.Pairwise fun r t => r.upper.connects t.lower = false) ∧
      ∀ x, s.ranges.Pairwise fun r t => ¬ (r.contains x ∧ t.contains x) := by
  intro s
  have hs : s.Built := ((Built.ofRange _).add _).union (.ofRange _)
  obtain ⟨hnonempty, _, hgaps, _, _, hdisjoint⟩ := ranges_ascend_with_gaps hs
  exact ⟨hs, by decide, hnonempty, hgaps, hdisjoint⟩

end ClusteringKeys.RangeSet
