import ClusteringKeys.RangeSet.Basic
import ClusteringKeys.Proofs.RangeSet.Cut
import Mathlib

namespace ClusteringKeys

namespace Range

variable {α : Type}

/-- The cut at which the range starts. -/
def start (r : Range α) : Cut α :=
  r.lower.start

/-- The cut at which the range stops. -/
def stop (r : Range α) : Cut α :=
  r.upper.stop

theorem ext_cuts {r s : Range α} (hstart : r.start = s.start) (hstop : r.stop = s.stop) : r = s := by
  have hlower : r.lower = s.lower := Endpoint.start_injective hstart
  have hupper : r.upper = s.upper := Endpoint.stop_injective hstop
  cases r
  cases s
  simp_all

variable [Ord α]

/-- The cut lies in the range, its start included and its stop not. A value lies in the range if the cut before it
    does; the other cuts tell apart ranges of the same values. -/
def Covers (r : Range α) (c : Cut α) : Prop :=
  r.start ≤ c ∧ c < r.stop

/-- The range runs upwards, so that it covers its own start. -/
def Nonempty (r : Range α) : Prop :=
  r.start < r.stop

/-- The ranges start at cuts that compare equal and stop at cuts that do. Values that compare equal need not be
    identical, so the ranges need not be either. -/
def SameCuts (r s : Range α) : Prop :=
  compare r.start s.start = .eq ∧ compare r.stop s.stop = .eq

/-- From the later start to the earlier stop of two ranges, whether or not that leaves any room. -/
def meet (r s : Range α) : Range α :=
  ⟨if r.lower.compareLower s.lower = .lt then s.lower else r.lower,
    if r.upper.compareUpper s.upper = .gt then s.upper else r.upper⟩

theorem intersection?_eq (r s : Range α) :
    r.intersection? s = if (r.meet s).isEmpty then none else some (r.meet s) := rfl

theorem start_extendUpTo (r s : Range α) : (r.extendUpTo s).start = r.start := by
  rw [extendUpTo]
  split <;> rfl

theorem contains_iff [Std.OrientedOrd α] (r : Range α) (x : α) : r.contains x ↔ r.Covers (.before x) := by
  rw [contains, Bool.and_eq_true, Endpoint.admitsAbove_iff, Endpoint.admitsBelow_iff]
  exact Iff.rfl

variable [Std.TransOrd α]

theorem isEmpty_iff (r : Range α) : r.isEmpty ↔ r.stop ≤ r.start := by
  obtain ⟨lower, upper⟩ := r
  cases lower <;> cases upper <;>
    simp [isEmpty, start, stop, Endpoint.start, Endpoint.stop, Std.OrientedCmp.isGE_eq_isLE, Std.OrientedCmp.gt_iff_lt]

theorem isEmpty_eq_false_iff (r : Range α) : r.isEmpty = false ↔ r.Nonempty := by
  rw [← Bool.not_eq_true, isEmpty_iff, Std.not_le]
  exact Iff.rfl

theorem Nonempty.covers_start {r : Range α} (h : r.Nonempty) : r.Covers r.start :=
  ⟨Std.le_refl _, h⟩

theorem Covers.nonempty {r : Range α} {c : Cut α} (h : r.Covers c) : r.Nonempty :=
  Std.lt_of_le_of_lt h.1 h.2

theorem covers_meet (r s : Range α) (c : Cut α) : (r.meet s).Covers c ↔ r.Covers c ∧ s.Covers c := by
  have hstart : (r.meet s).start ≤ c ↔ r.start ≤ c ∧ s.start ≤ c := by
    simp only [meet, start]
    split
    next hlt =>
      have hlt := (Endpoint.compareLower_eq_lt_iff _ _).mp hlt
      grind
    next hge =>
      have hge := mt (Endpoint.compareLower_eq_lt_iff _ _).mpr hge
      grind
  have hstop : c < (r.meet s).stop ↔ c < r.stop ∧ c < s.stop := by
    simp only [meet, stop]
    split
    next hgt =>
      have hgt := (Endpoint.compareUpper_eq_gt_iff _ _).mp hgt
      grind
    next hle =>
      have hle := mt (Endpoint.compareUpper_eq_gt_iff _ _).mpr hle
      grind
  rw [Covers, hstart, hstop]
  exact and_and_and_comm

theorem nonempty_of_intersection? {r s t : Range α} (h : r.intersection? s = some t) : t.Nonempty := by
  rw [intersection?_eq] at h
  split at h
  next => cases h
  next hempty =>
    cases h
    exact (isEmpty_eq_false_iff _).mp (Bool.eq_false_iff.mpr hempty)

/-- The intersection of two ranges is missing only where no cut lies in both. -/
theorem exists_intersection?_covers (r s : Range α) (c : Cut α) :
    (∃ t, r.intersection? s = some t ∧ t.Covers c) ↔ r.Covers c ∧ s.Covers c := by
  rw [intersection?_eq, ← covers_meet]
  split
  next hempty =>
    have hstop := (isEmpty_iff _).mp hempty
    simp only [reduceCtorEq, false_and, exists_false, false_iff]
    exact fun h => Std.not_lt.mpr hstop h.nonempty
  next => simp

/-- A range takes in another one that starts inside it or right after it. -/
theorem covers_extendUpTo {r s : Range α} (hstart : r.start ≤ s.start) (hmeets : s.start ≤ r.stop) (c : Cut α) :
    (r.extendUpTo s).Covers c ↔ r.Covers c ∨ s.Covers c := by
  rw [extendUpTo]
  split
  next hlonger =>
    have hlonger : r.stop < s.stop := (Endpoint.compareUpper_eq_gt_iff _ _).mp hlonger
    change r.start ≤ c ∧ c < s.stop ↔ r.start ≤ c ∧ c < r.stop ∨ s.start ≤ c ∧ c < s.stop
    grind
  next hshorter =>
    have hshorter : ¬ r.stop < s.stop := mt (Endpoint.compareUpper_eq_gt_iff _ _).mpr hshorter
    change r.start ≤ c ∧ c < r.stop ↔ r.start ≤ c ∧ c < r.stop ∨ s.start ≤ c ∧ c < s.stop
    grind

theorem stop_le_extendUpTo (r s : Range α) : r.stop ≤ (r.extendUpTo s).stop := by
  rw [extendUpTo]
  split
  next hlonger => exact Std.le_of_lt ((Endpoint.compareUpper_eq_gt_iff _ _).mp hlonger)
  next => exact Std.le_refl _

end Range

end ClusteringKeys
