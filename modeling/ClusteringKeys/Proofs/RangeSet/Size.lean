import ClusteringKeys.Proofs.RangeSet.Built
import ClusteringKeys.Proofs.RangeSet.Within
import Mathlib

namespace ClusteringKeys

variable {α : Type} [Ord α]

namespace Range

/-- The ranges overlap or touch, so that no set holds both. -/
def connects (r s : Range α) : Bool :=
  r.upper.connects s.lower && s.upper.connects r.lower

/-- From the earlier start to the later stop of two ranges. -/
def hull (r s : Range α) : Range α :=
  ⟨if s.lower.compareLower r.lower = .lt then s.lower else r.lower,
    if s.upper.compareUpper r.upper = .gt then s.upper else r.upper⟩

theorem connects_map {β : Type} [Ord β] {f : α → β} (hf : ∀ a b, compare (f a) (f b) = compare a b) (r s : Range α) :
    (r.map f).connects (s.map f) = r.connects s := by
  rw [connects, connects, map, map, Endpoint.connects_map hf, Endpoint.connects_map hf]

variable [Std.TransOrd α]

theorem connects_iff (r s : Range α) : r.connects s ↔ s.start ≤ r.stop ∧ r.start ≤ s.stop := by
  rw [connects, Bool.and_eq_true, Endpoint.connects_iff, Endpoint.connects_iff]
  exact Iff.rfl

theorem start_hull (r s : Range α) :
    (r.hull s).start = s.start ∧ s.start < r.start ∨ (r.hull s).start = r.start ∧ r.start ≤ s.start := by
  simp only [hull, start]
  split
  next hlt => exact .inl ⟨rfl, (Endpoint.compareLower_eq_lt_iff _ _).mp hlt⟩
  next hge => exact .inr ⟨rfl, Std.not_lt.mp (mt (Endpoint.compareLower_eq_lt_iff _ _).mpr hge)⟩

theorem stop_hull (r s : Range α) :
    (r.hull s).stop = s.stop ∧ r.stop < s.stop ∨ (r.hull s).stop = r.stop ∧ s.stop ≤ r.stop := by
  simp only [hull, stop]
  split
  next hgt => exact .inl ⟨rfl, (Endpoint.compareUpper_eq_gt_iff _ _).mp hgt⟩
  next hle => exact .inr ⟨rfl, Std.not_lt.mp (mt (Endpoint.compareUpper_eq_gt_iff _ _).mpr hle)⟩

/-- Between ranges that overlap or touch there is nothing for the hull to take in. -/
theorem covers_hull {r s : Range α} (h : r.connects s) (c : Cut α) :
    (r.hull s).Covers c ↔ r.Covers c ∨ s.Covers c := by
  obtain ⟨hmeets, hmeets'⟩ := (connects_iff r s).mp h
  simp only [Covers]
  rcases start_hull r s with ⟨hstart, _⟩ | ⟨hstart, _⟩ <;> rcases stop_hull r s with ⟨hstop, _⟩ | ⟨hstop, _⟩ <;>
    rw [hstart, hstop] <;> grind

theorem nonempty_hull {r s : Range α} (hr : r.Nonempty) : (r.hull s).Nonempty := by
  simp only [Nonempty] at hr ⊢
  rcases start_hull r s with ⟨hstart, _⟩ | ⟨hstart, _⟩ <;> rcases stop_hull r s with ⟨hstop, _⟩ | ⟨hstop, _⟩ <;>
    rw [hstart, hstop] <;> grind

/-- Behind the stop of a range its hull with another one reaches no further than the other one. -/
theorem connects_hull_of_lt {r s t : Range α} (ht : t.Nonempty) (hr : r.Nonempty) (hmeets : r.connects s)
    (hgap : r.stop < t.start) : t.connects (r.hull s) = t.connects s := by
  obtain ⟨_, hmeets⟩ := (connects_iff r s).mp hmeets
  simp only [Nonempty] at ht hr
  rw [Bool.eq_iff_iff, connects_iff, connects_iff]
  rcases start_hull r s with ⟨hstart, _⟩ | ⟨hstart, _⟩ <;> rcases stop_hull r s with ⟨hstop, _⟩ | ⟨hstop, _⟩ <;>
    rw [hstart, hstop] <;> grind

end Range

namespace RangeSet

section Canonical

theorem covers_cons (r : Range α) (rest : List (Range α)) (c : Cut α) :
    Covers ⟨r :: rest⟩ c ↔ r.Covers c ∨ Covers ⟨rest⟩ c :=
  List.exists_mem_cons_iff _ _ _

variable [Std.TransOrd α]

theorem Canonical.cons {r : Range α} {rest : List (Range α)} (hr : r.Nonempty) (hrest : Canonical ⟨rest⟩)
    (hgap : ∀ c, Covers ⟨rest⟩ c → r.stop < c) : Canonical ⟨r :: rest⟩ := by
  refine ⟨List.forall_mem_cons.mpr ⟨hr, hrest.nonempty⟩, List.pairwise_cons.mpr ⟨fun t ht => ?_, hrest.apart⟩⟩
  exact hgap t.start ⟨t, ht, (hrest.nonempty t ht).covers_start⟩

theorem Canonical.lt_of_covers_tail {r : Range α} {rest : List (Range α)} (hs : Canonical ⟨r :: rest⟩) {c : Cut α}
    (hc : Covers ⟨rest⟩ c) : r.stop < c := by
  obtain ⟨t, ht, hstart, _⟩ := hc
  exact Std.lt_of_lt_of_le ((List.pairwise_cons.mp hs.apart).1 t ht) hstart

theorem Canonical.size_eq_of_covers {s t : RangeSet α} (hs : s.Canonical) (ht : t.Canonical)
    (hcovers : ∀ c, s.Covers c ↔ t.Covers c) : s.size = t.size :=
  (hs.forall₂_sameCuts ht hcovers).length_eq

/-- A range that overlaps or touches the first one goes into one range with it. -/
theorem Canonical.size_add_of_connects {q r : Range α} {rest : List (Range α)} (hs : Canonical ⟨q :: rest⟩)
    (hmeets : q.connects r) : (RangeSet.add ⟨q :: rest⟩ r).size = (RangeSet.add ⟨rest⟩ (q.hull r)).size := by
  refine (hs.add r).size_eq_of_covers (hs.tail.add _) fun c => ?_
  rw [covers_add, covers_add, covers_cons, Range.covers_hull hmeets, or_assoc, or_left_comm]

theorem Canonical.size_add_of_stop_lt {q r : Range α} {rest : List (Range α)} (hs : Canonical ⟨q :: rest⟩)
    (hbehind : q.stop < r.start) : (RangeSet.add ⟨q :: rest⟩ r).size = (RangeSet.add ⟨rest⟩ r).size + 1 := by
  have hkept : Canonical ⟨q :: (RangeSet.add ⟨rest⟩ r).ranges⟩ := by
    refine (hs.tail.add r).cons (hs.nonempty q List.mem_cons_self) fun c hc => ?_
    rcases (covers_add ⟨rest⟩ r c).mp hc with hc | hc
    · exact hs.lt_of_covers_tail hc
    · exact Std.lt_of_lt_of_le hbehind hc.1
  refine (hs.add r).size_eq_of_covers hkept fun c => ?_
  rw [covers_add, covers_cons, covers_cons, or_assoc]
  exact or_congr_right (covers_add ⟨rest⟩ r c).symm

theorem Canonical.size_add_of_lt_start {s : RangeSet α} (hs : s.Canonical) {r : Range α} (hr : r.Nonempty)
    (hahead : ∀ q ∈ s.ranges, r.stop < q.start) : (s.add r).size = s.size + 1 := by
  have hkept : Canonical ⟨r :: s.ranges⟩ :=
    hs.cons hr fun c ⟨q, hq, hc⟩ => Std.lt_of_lt_of_le (hahead q hq) hc.1
  refine (hs.add r).size_eq_of_covers hkept fun c => ?_
  rw [covers_add, covers_cons, or_comm]

theorem countP_not_connects_of_lt_start {r : Range α} {ts : List (Range α)} (hahead : ∀ t ∈ ts, r.stop < t.start) :
    ts.countP (fun t => !t.connects r) = ts.length := by
  refine List.countP_eq_length.mpr fun t ht => ?_
  have hnot : ¬ t.connects r := fun hmeets => Std.not_le.mpr (hahead t ht) ((Range.connects_iff t r).mp hmeets).2
  rw [Bool.eq_false_iff.mpr hnot]
  rfl

/-- Adding a range puts one range in the place of all that it overlaps or touches, and keeps the others. -/
theorem Canonical.size_add {s : RangeSet α} (hs : s.Canonical) {r : Range α} (hr : r.Nonempty) :
    (s.add r).size = s.ranges.countP (fun q => !q.connects r) + 1 := by
  obtain ⟨ranges⟩ := s
  induction ranges generalizing r with
  | nil => exact hs.size_add_of_lt_start hr (List.forall_mem_nil _)
  | cons q rest ih =>
    have hq := hs.nonempty q List.mem_cons_self
    have hgap := (List.pairwise_cons.mp hs.apart).1
    by_cases hmeets : q.connects r
    · -- The hull meets the same later ranges as the added range.
      have hlater : rest.countP (fun t => !t.connects (q.hull r)) = rest.countP fun t => !t.connects r := by
        refine List.countP_congr fun t ht => ?_
        rw [Range.connects_hull_of_lt (hs.nonempty t (List.mem_cons_of_mem q ht)) hq hmeets (hgap t ht)]
      rw [hs.size_add_of_connects hmeets, ih (Range.nonempty_hull hq) hs.tail, hlater, List.countP_cons, hmeets]
      rfl
    · have hapart : q.stop < r.start ∨ r.stop < q.start := by
        rw [Range.connects_iff, not_and_or, Std.not_le, Std.not_le] at hmeets
        exact hmeets
      rcases hapart with hbehind | hahead
      · rw [hs.size_add_of_stop_lt hbehind, ih hr hs.tail, List.countP_cons, Bool.eq_false_iff.mpr hmeets]
        rfl
      · have hahead : ∀ t ∈ q :: rest, r.stop < t.start := fun t ht =>
          Std.lt_of_lt_of_le hahead (hs.start_le_of_covers ⟨t, ht, (hs.nonempty t ht).covers_start⟩)
        rw [hs.size_add_of_lt_start hr hahead, countP_not_connects_of_lt_start hahead]
        rfl

/-- No value lies in two ranges. -/
theorem Canonical.countP_contains {s : RangeSet α} (hs : s.Canonical) (x : α) :
    s.ranges.countP (·.contains x) = if s.contains x then 1 else 0 := by
  obtain ⟨ranges⟩ := s
  induction ranges with
  | nil => rfl
  | cons r rest ih =>
    have hlater := (List.pairwise_cons.mp (hs.pairwise_not_contains x)).1
    change (r :: rest).countP _ = if r.contains x || contains ⟨rest⟩ x then 1 else 0
    rw [List.countP_cons, ih hs.tail]
    cases hr : r.contains x with
    | false => simp
    | true =>
      have hnone : contains ⟨rest⟩ x = false :=
        List.any_eq_false.mpr fun t ht ht' => hlater t ht ⟨hr, ht'⟩
      rw [hnone]
      rfl

end Canonical

section Within

variable {P : α → Prop} [Std.TransOrd (Subtype P)]

theorem Within.size_add {s : RangeSet α} {r : Range α} (hs : s.Within P) (hr : r.Within P)
    (hnonempty : r.isEmpty = false) : (s.add r).size = s.ranges.countP (fun q => !q.connects r) + 1 := by
  obtain ⟨s, hs, rfl⟩ := hs
  obtain ⟨r, rfl⟩ := hr
  rw [Range.isEmpty_map compare_subtype_val, Range.isEmpty_eq_false_iff] at hnonempty
  rw [add_map compare_subtype_val, size_map, hs.size_add hnonempty, map, List.countP_map]
  simp only [Function.comp_def, Range.connects_map compare_subtype_val]

theorem Within.countP_contains {s : RangeSet α} (hs : s.Within P) {x : α} (hx : P x) :
    s.ranges.countP (·.contains x) = if s.contains x then 1 else 0 := by
  obtain ⟨s, hs, rfl⟩ := hs
  have hcount := hs.countP_contains ⟨x, hx⟩
  rw [← contains_map compare_subtype_val] at hcount
  rw [← hcount, map, List.countP_map]
  refine List.countP_congr fun r _ => ?_
  exact Eq.congr_left (Range.contains_map compare_subtype_val r ⟨x, hx⟩)

end Within

end RangeSet

end ClusteringKeys
