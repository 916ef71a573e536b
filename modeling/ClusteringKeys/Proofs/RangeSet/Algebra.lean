import ClusteringKeys.Proofs.RangeSet.Join
import Mathlib

namespace ClusteringKeys.RangeSet

variable {α : Type} [Ord α]

theorem Canonical.tail {r : Range α} {rest : List (Range α)} (hs : Canonical ⟨r :: rest⟩) : Canonical ⟨rest⟩ :=
  ⟨(List.forall_mem_cons.mp hs.nonempty).2, (List.pairwise_cons.mp hs.apart).2⟩

variable [Std.TransOrd α]

theorem covers_add (s : RangeSet α) (r : Range α) (c : Cut α) :
    (s.add r).Covers c ↔ s.Covers c ∨ r.Covers c := by
  rw [add]
  split
  next hempty =>
    have hstop := (Range.isEmpty_iff r).mp hempty
    have hnone : ¬ r.Covers c := fun h => Std.not_lt.mpr hstop h.nonempty
    simp [hnone]
  next =>
    rw [covers_ofRanges]
    simp [Covers, or_and_right, exists_or]

theorem covers_ofRange (r : Range α) (c : Cut α) : (ofRange r).Covers c ↔ r.Covers c := by
  rw [ofRange, covers_add]
  exact or_iff_right (not_covers_empty c)

theorem covers_foldl_add (ranges : List (Range α)) (s : RangeSet α) (c : Cut α) :
    (ranges.foldl add s).Covers c ↔ s.Covers c ∨ ∃ r ∈ ranges, r.Covers c := by
  induction ranges generalizing s with
  | nil => simp
  | cons r ranges ih => rw [List.foldl_cons, ih, covers_add, List.exists_mem_cons_iff, or_assoc]

theorem Covers.all {s : RangeSet α} {c : Cut α} (h : s.Covers c) : (all : RangeSet α).Covers c := by
  obtain ⟨r, _, _, hstop⟩ := h
  exact (covers_ofRange .all c).mpr ⟨Cut.bottom_le c, Std.lt_of_lt_of_le hstop (Cut.le_top _)⟩

theorem covers_union (s t : RangeSet α) (c : Cut α) : (s.union t).Covers c ↔ s.Covers c ∨ t.Covers c := by
  rw [union, covers_ofRanges]
  simp [Covers, or_and_right, exists_or]

theorem covers_intersection (s t : RangeSet α) (c : Cut α) :
    (s.intersection t).Covers c ↔ s.Covers c ∧ t.Covers c := by
  rw [intersection, covers_ofRanges]
  constructor
  · rintro ⟨u, hu, hc⟩
    obtain ⟨r, hr, hu⟩ := List.mem_flatMap.mp hu
    obtain ⟨q, hq, hu⟩ := List.mem_filterMap.mp hu
    obtain ⟨hcr, hcq⟩ := (Range.exists_intersection?_covers r q c).mp ⟨u, hu, hc⟩
    exact ⟨⟨r, hr, hcr⟩, ⟨q, hq, hcq⟩⟩
  · rintro ⟨⟨r, hr, hcr⟩, ⟨q, hq, hcq⟩⟩
    obtain ⟨u, hu, hc⟩ := (Range.exists_intersection?_covers r q c).mpr ⟨hcr, hcq⟩
    exact ⟨u, List.mem_flatMap.mpr ⟨r, hr, List.mem_filterMap.mpr ⟨q, hq, hu⟩⟩, hc⟩

theorem Canonical.add {s : RangeSet α} (hs : s.Canonical) (r : Range α) : (s.add r).Canonical := by
  rw [RangeSet.add]
  split
  next => exact hs
  next hempty =>
    apply canonical_ofRanges
    intro t ht
    rcases List.mem_append.mp ht with ht | ht
    · exact hs.nonempty t ht
    · rw [List.mem_singleton.mp ht]
      exact (Range.isEmpty_eq_false_iff r).mp (Bool.eq_false_iff.mpr hempty)

theorem canonical_ofRange (r : Range α) : (ofRange r).Canonical :=
  canonical_empty.add r

theorem Canonical.union {s t : RangeSet α} (hs : s.Canonical) (ht : t.Canonical) : (s.union t).Canonical := by
  apply canonical_ofRanges
  intro r hr
  rcases List.mem_append.mp hr with hr | hr
  · exact hs.nonempty r hr
  · exact ht.nonempty r hr

/-- Intersections need no assumption on the sets, since ranges without room are left out one by one. -/
theorem canonical_intersection (s t : RangeSet α) : (s.intersection t).Canonical := by
  apply canonical_ofRanges
  intro u hu
  obtain ⟨r, _, hu⟩ := List.mem_flatMap.mp hu
  obtain ⟨q, _, hu⟩ := List.mem_filterMap.mp hu
  exact Range.nonempty_of_intersection? hu

/-- In canonical form the first range starts at the least cut covered. -/
theorem Canonical.start_le_of_covers {r : Range α} {rest : List (Range α)} (hs : Canonical ⟨r :: rest⟩)
    {c : Cut α} (hc : Covers ⟨r :: rest⟩ c) : r.start ≤ c := by
  obtain ⟨t, ht, hstart, _⟩ := hc
  rcases List.mem_cons.mp ht with rfl | ht
  · exact hstart
  · have hgap := (List.pairwise_cons.mp hs.apart).1 t ht
    have hr := hs.nonempty r List.mem_cons_self
    exact Std.le_trans (Std.le_of_lt (Std.lt_trans hr hgap)) hstart

/-- The cuts that the later ranges cover are those past the stop of the first one. -/
theorem Canonical.covers_tail_iff {r : Range α} {rest : List (Range α)} (hs : Canonical ⟨r :: rest⟩) (c : Cut α) :
    Covers ⟨rest⟩ c ↔ Covers ⟨r :: rest⟩ c ∧ r.stop ≤ c := by
  constructor
  · rintro ⟨t, ht, hc⟩
    have hgap := (List.pairwise_cons.mp hs.apart).1 t ht
    exact ⟨⟨t, List.mem_cons_of_mem r ht, hc⟩, Std.le_trans (Std.le_of_lt hgap) hc.1⟩
  · rintro ⟨⟨t, ht, hc⟩, hstop⟩
    rcases List.mem_cons.mp ht with rfl | ht
    · exact absurd hc.2 (Std.not_lt.mpr hstop)
    · exact ⟨t, ht, hc⟩

/-- The stop of the first range is not covered, because there is a gap behind it. -/
theorem Canonical.not_covers_stop {r : Range α} {rest : List (Range α)} (hs : Canonical ⟨r :: rest⟩) :
    ¬ Covers ⟨r :: rest⟩ r.stop := by
  rintro ⟨t, ht, hstart, hstop⟩
  rcases List.mem_cons.mp ht with rfl | ht
  · exact Std.lt_irrefl hstop
  · exact Std.not_le.mpr ((List.pairwise_cons.mp hs.apart).1 t ht) hstart

/-- Two first ranges that start together also stop together, if the sets cover the same cuts. -/
private theorem stop_le_of_covers {r q : Range α} {rest rest' : List (Range α)} (hr : Canonical ⟨r :: rest⟩)
    (hq : q.start ≤ r.start) (hnonempty : r.Nonempty)
    (hcovers : ∀ c, Covers ⟨q :: rest'⟩ c → Covers ⟨r :: rest⟩ c) : q.stop ≤ r.stop := by
  refine Std.not_lt.mp fun hlt => hr.not_covers_stop (hcovers r.stop ?_)
  exact ⟨q, List.mem_cons_self, Std.le_trans hq (Std.le_of_lt hnonempty), hlt⟩

/-- Sets in canonical form that cover the same cuts hold ranges with the same starts and stops, one by one. -/
theorem Canonical.forall₂_sameCuts {s t : RangeSet α} (hs : s.Canonical) (ht : t.Canonical)
    (hcovers : ∀ c, s.Covers c ↔ t.Covers c) : List.Forall₂ Range.SameCuts s.ranges t.ranges := by
  obtain ⟨ranges⟩ := s
  obtain ⟨ranges'⟩ := t
  induction ranges generalizing ranges' with
  | nil =>
    cases ranges' with
    | nil => exact .nil
    | cons q rest' =>
      have hq := (ht.nonempty q List.mem_cons_self).covers_start
      exact absurd ((hcovers q.start).mpr ⟨q, List.mem_cons_self, hq⟩) (not_covers_empty _)
  | cons r rest ih =>
    have hr := hs.nonempty r List.mem_cons_self
    cases ranges' with
    | nil => exact absurd ((hcovers r.start).mp ⟨r, List.mem_cons_self, hr.covers_start⟩) (not_covers_empty _)
    | cons q rest' =>
      have hq := ht.nonempty q List.mem_cons_self
      have hrq := hs.start_le_of_covers ((hcovers q.start).mpr ⟨q, List.mem_cons_self, hq.covers_start⟩)
      have hqr := ht.start_le_of_covers ((hcovers r.start).mp ⟨r, List.mem_cons_self, hr.covers_start⟩)
      have hstopRQ := stop_le_of_covers ht hrq hq fun c => (hcovers c).mp
      have hstopQR := stop_le_of_covers hs hqr hr fun c => (hcovers c).mpr
      have hrest : ∀ c, Covers ⟨rest⟩ c ↔ Covers ⟨rest'⟩ c := by
        intro c
        have hpast : r.stop ≤ c ↔ q.stop ≤ c := ⟨Std.le_trans hstopQR, Std.le_trans hstopRQ⟩
        rw [hs.covers_tail_iff, ht.covers_tail_iff, hcovers, hpast]
      exact .cons ⟨Std.OrientedCmp.isLE_antisymm hrq hqr, Std.OrientedCmp.isLE_antisymm hstopRQ hstopQR⟩
        (ih hs.tail rest' ht.tail hrest)

/-- Sets in canonical form that cover the same cuts hold the same ranges, if only identical values compare equal. -/
theorem Canonical.eq_of_covers [Std.LawfulEqOrd α] {s t : RangeSet α} (hs : s.Canonical) (ht : t.Canonical)
    (hcovers : ∀ c, s.Covers c ↔ t.Covers c) : s = t := by
  have hranges : s.ranges = t.ranges := List.forall₂_eq_eq_eq ▸
    (hs.forall₂_sameCuts ht hcovers).imp fun _ _ ⟨hstart, hstop⟩ =>
      Range.ext_cuts (Std.LawfulEqOrd.eq_of_compare hstart) (Std.LawfulEqOrd.eq_of_compare hstop)
  cases s
  cases t
  exact congrArg RangeSet.mk hranges

end ClusteringKeys.RangeSet
