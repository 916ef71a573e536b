import ClusteringKeys.Proofs.RangeSet.Built
import Mathlib

namespace ClusteringKeys

variable {α : Type} [Ord α]

namespace RangeSet

/-- Ranges that ascend with gaps between them are left as they are. -/
theorem joinFrom_of_pairwise {pending : Range α} {rest : List (Range α)}
    (h : (pending :: rest).Pairwise fun r t => r.upper.connects t.lower = false) :
    joinFrom pending rest = pending :: rest := by
  induction rest generalizing pending with
  | nil => rfl
  | cons r rest ih =>
    obtain ⟨hpending, hrest⟩ := List.pairwise_cons.mp h
    rw [joinFrom, hpending r List.mem_cons_self, if_neg Bool.false_ne_true, ih hrest]

/-- What the ranges of one set have in common with those of the other, pair by pair. -/
def meetings (s t : RangeSet α) : RangeSet α :=
  ⟨s.ranges.flatMap fun r => t.ranges.filterMap r.intersection?⟩

theorem size_meetings_cons (r : Range α) (rs : List (Range α)) (t : RangeSet α) :
    (meetings ⟨r :: rs⟩ t).size =
      t.ranges.countP (fun q => (r.intersection? q).isSome) + (meetings ⟨rs⟩ t).size := by
  simp [size, meetings, List.length_filterMap_eq_countP]

end RangeSet

variable [Std.TransOrd α]

namespace Range

theorem Nonempty.start_le_of_covers {r u : Range α} (hu : u.Nonempty) (h : ∀ c, u.Covers c → r.Covers c) :
    r.start ≤ u.start :=
  (h u.start hu.covers_start).1

theorem Nonempty.stop_le_of_covers {r u : Range α} (hu : u.Nonempty) (h : ∀ c, u.Covers c → r.Covers c) :
    u.stop ≤ r.stop := by
  refine Std.not_lt.mp fun hlt => ?_
  have hstart := (h u.start hu.covers_start).2
  exact Std.lt_irrefl (h r.stop ⟨Std.le_of_lt hstart, hlt⟩).2

theorem covers_of_intersection? {r s u : Range α} (h : r.intersection? s = some u) {c : Cut α} (hc : u.Covers c) :
    r.Covers c ∧ s.Covers c :=
  (exists_intersection?_covers r s c).mp ⟨u, h, hc⟩

/-- The intersection starts and stops within either range. -/
theorem bounds_of_intersection? {r s u : Range α} (h : r.intersection? s = some u) :
    (r.start ≤ u.start ∧ u.stop ≤ r.stop) ∧ (s.start ≤ u.start ∧ u.stop ≤ s.stop) := by
  have hu := nonempty_of_intersection? h
  have hr : ∀ c, u.Covers c → r.Covers c := fun c hc => (covers_of_intersection? h hc).1
  have hs : ∀ c, u.Covers c → s.Covers c := fun c hc => (covers_of_intersection? h hc).2
  exact ⟨⟨hu.start_le_of_covers hr, hu.stop_le_of_covers hr⟩, ⟨hu.start_le_of_covers hs, hu.stop_le_of_covers hs⟩⟩

theorem intersection?_eq_none {r s : Range α} (h : r.stop ≤ s.start ∨ s.stop ≤ r.start) :
    r.intersection? s = none := by
  cases hu : r.intersection? s with
  | none => rfl
  | some u =>
    obtain ⟨⟨hstartR, hstopR⟩, hstartS, hstopS⟩ := bounds_of_intersection? hu
    have hnonempty : u.start < u.stop := nonempty_of_intersection? hu
    rcases h with h | h
    · exact absurd (Std.le_trans (Std.le_trans hstopR h) hstartS) (Std.not_le.mpr hnonempty)
    · exact absurd (Std.le_trans (Std.le_trans hstopS h) hstartR) (Std.not_le.mpr hnonempty)

end Range

namespace RangeSet

theorem Canonical.ofRanges_ranges {s : RangeSet α} (hs : s.Canonical) : ofRanges s.ranges = s := by
  have hsorted := stableSort_of_pairwise (fun r t : Range α => r.lower.compareLower t.lower)
    (hs.pairwise_compareLower.imp fun h => Ordering.isLE_of_eq_lt h)
  obtain ⟨ranges⟩ := s
  rw [ofRanges, hsorted]
  cases ranges with
  | nil => rfl
  | cons r rest => exact congrArg RangeSet.mk (joinFrom_of_pairwise hs.pairwise_not_connects)

/-- The meetings of one range follow each other like the ranges that it meets, and those of a later range come after
    them. -/
theorem canonical_meetings {s t : RangeSet α} (hs : s.Canonical) (ht : t.Canonical) : (meetings s t).Canonical := by
  constructor
  · intro u hu
    obtain ⟨r, _, hu⟩ := List.mem_flatMap.mp hu
    obtain ⟨q, _, hu⟩ := List.mem_filterMap.mp hu
    exact Range.nonempty_of_intersection? hu
  · refine List.pairwise_flatMap.mpr ⟨fun r _ => ?_, hs.apart.imp fun hgap u hu v hv => ?_⟩
    · refine List.pairwise_filterMap.mpr (ht.apart.imp fun hgap u hu v hv => ?_)
      have hstop := (Range.bounds_of_intersection? hu).2.2
      have hstart := (Range.bounds_of_intersection? hv).2.1
      exact Std.lt_of_le_of_lt hstop (Std.lt_of_lt_of_le hgap hstart)
    · obtain ⟨q, _, hu⟩ := List.mem_filterMap.mp hu
      obtain ⟨q', _, hv⟩ := List.mem_filterMap.mp hv
      have hstop := (Range.bounds_of_intersection? hu).1.2
      have hstart := (Range.bounds_of_intersection? hv).1.1
      exact Std.lt_of_le_of_lt hstop (Std.lt_of_lt_of_le hgap hstart)

/-- Intersecting sets joins nothing. -/
theorem intersection_eq_meetings {s t : RangeSet α} (hs : s.Canonical) (ht : t.Canonical) :
    s.intersection t = meetings s t :=
  (canonical_meetings hs ht).ofRanges_ranges

theorem meetings_cons_of_stop_le {s : RangeSet α} {q : Range α} {qs : List (Range α)}
    (h : ∀ r ∈ s.ranges, q.stop ≤ r.start) : meetings s ⟨q :: qs⟩ = meetings s ⟨qs⟩ := by
  refine congrArg RangeSet.mk (List.flatMap_congr fun r hr => ?_)
  exact List.filterMap_cons_none (Range.intersection?_eq_none (.inr (h r hr)))

theorem countP_intersection?_eq_zero {r : Range α} {qs : List (Range α)} (h : ∀ q ∈ qs, r.stop ≤ q.start) :
    qs.countP (fun q => (r.intersection? q).isSome) = 0 := by
  refine List.countP_eq_zero.mpr fun q hq => ?_
  rw [Range.intersection?_eq_none (.inl (h q hq))]
  exact Bool.false_ne_true

/-- Of the first ranges of two sets, the one that stops first meets no range of the other set but the first one, so it
    can be set aside with at most one meeting. -/
theorem size_meetings_le {s t : RangeSet α} (hs : s.Canonical) (ht : t.Canonical) :
    (meetings s t).size ≤ s.size + t.size - 1 := by
  obtain ⟨rs⟩ := s
  obtain ⟨qs⟩ := t
  induction rs generalizing qs with
  | nil => exact Nat.zero_le _
  | cons r rs ihr =>
    induction qs with
    | nil => simp [meetings, size]
    | cons q qs ihq =>
      have hrest := size_meetings_cons r rs ⟨q :: qs⟩
      rw [List.countP_cons] at hrest
      have htotal : r.stop ≤ q.stop ∨ q.stop ≤ r.stop := Std.le_total
      rcases htotal with hstop | hstop
      · have hlater : ∀ q' ∈ qs, r.stop ≤ q'.start := fun q' hq' =>
          Std.le_trans hstop (Std.le_of_lt ((List.pairwise_cons.mp ht.apart).1 q' hq'))
        rw [countP_intersection?_eq_zero hlater] at hrest
        have hle := ihr hs.tail (q :: qs) ht
        simp only [size, List.length_cons] at hle hrest ⊢
        split at hrest <;> omega
      · have hlater : ∀ r' ∈ rs, q.stop ≤ r'.start := fun r' hr' =>
          Std.le_trans hstop (Std.le_of_lt ((List.pairwise_cons.mp hs.apart).1 r' hr'))
        rw [meetings_cons_of_stop_le hlater] at hrest
        have hshorter := size_meetings_cons r rs ⟨qs⟩
        have hle := ihq ht.tail
        simp only [size, List.length_cons] at hle hrest hshorter ⊢
        split at hrest <;> omega

/-- The intersection of two sets is as small as it can be: what their ranges have in common, pair by pair, is apart
    from the start, so each pair with anything in common leaves one range and none are joined. These are fewer than the
    ranges of both sets together, although every range is compared with every other. -/
theorem intersection_joins_nothing {s t : RangeSet α} (hs : s.Built) (ht : t.Built) :
    let meetings := (s.ranges ×ˢ t.ranges).filterMap fun pair => pair.1.intersection? pair.2
    (meetings.Pairwise fun u v => u.upper.connects v.lower = false) ∧
    (s.intersection t).ranges = meetings ∧
    (s.intersection t).size = (s.ranges ×ˢ t.ranges).countP (fun pair => (pair.1.intersection? pair.2).isSome) ∧
    (s.intersection t).size ≤ s.size + t.size - 1 := by
  intro pairwise
  have hpairs : (RangeSet.meetings s t).ranges = pairwise := by
    simp only [pairwise, RangeSet.meetings, SProd.sprod, List.product, List.filterMap_flatMap, List.filterMap_map]
    rfl
  have hmeetings := intersection_eq_meetings hs.canonical ht.canonical
  have hsize := size_meetings_le hs.canonical ht.canonical
  have hapart := (canonical_meetings hs.canonical ht.canonical).pairwise_not_connects
  rw [hmeetings, hpairs]
  rw [hpairs] at hapart
  refine ⟨hapart, rfl, ?_, hsize⟩
  rw [size, hpairs, List.length_filterMap_eq_countP]

/-- The pairs on either side of the gaps have one value in common, or none at all. -/
theorem intersection_joins_nothing_around_gaps :
    let s : RangeSet Int := (ofRange (.lessThan 3)).add (.closed 5 9)
    let t : RangeSet Int := (ofRange (.closed 1 5)).add (.openClosed 9 12)
    s.Built ∧ t.Built ∧ (s.intersection t).ranges = [.closedOpen 1 3, .closed 5 5] ∧
      ([Range.closedOpen 1 3, .closed 5 5].Pairwise fun u v : Range Int => u.upper.connects v.lower = false) ∧
      (s.intersection t).size ≤ s.size + t.size - 1 := by
  intro s t
  have hs : s.Built := (Built.ofRange _).add _
  have ht : t.Built := (Built.ofRange _).add _
  obtain ⟨hapart, _, _, hsize⟩ := intersection_joins_nothing hs ht
  exact ⟨hs, ht, by decide, hapart, hsize⟩

end RangeSet

end ClusteringKeys
