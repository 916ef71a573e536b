import ClusteringKeys.RangeSet.Endpoint
import Mathlib

namespace ClusteringKeys

/-- A place where an ordered type can be cut in two: beside one of its values, or beyond all of them. Every range
    runs from one cut to another, whether its ends are open, closed or absent. -/
inductive Cut (α : Type) where
  | bottom
  | before (a : α)
  | after (a : α)
  | top

namespace Cut

variable {α : Type}

/-- The places below all values, beside a value, and above all values, in this order. -/
def zone : Cut α → Nat
  | bottom => 0
  | before _ | after _ => 1
  | top => 2

/-- The value beside the cut. -/
def value? : Cut α → Option α
  | before a | after a => some a
  | bottom | top => none

/-- The two sides of a value, the one before it first. -/
def side : Cut α → Nat
  | bottom | before _ | top => 0
  | after _ => 1

theorem ext {c d : Cut α} (hzone : c.zone = d.zone) (hvalue : c.value? = d.value?) (hside : c.side = d.side) :
    c = d := by
  cases c <;> cases d <;> simp_all [zone, value?, side]

variable [Ord α]

instance : Ord (Cut α) := ⟨compareLex (compareOn zone) (compareLex (compareOn value?) (compareOn side))⟩

instance : LE (Cut α) := LE.ofOrd _

instance : LT (Cut α) := LT.ofOrd _

theorem compare_before_before (a b : α) : compare (before a) (before b) = compare a b := by
  change (compare a b).then .eq = compare a b
  exact Ordering.then_eq

theorem compare_after_after (a b : α) : compare (after a) (after b) = compare a b := by
  change (compare a b).then .eq = compare a b
  exact Ordering.then_eq

theorem compare_before_after (a b : α) : compare (before a) (after b) = (compare a b).then .lt := rfl

theorem compare_after_before (a b : α) : compare (after a) (before b) = (compare a b).then .gt := rfl

@[simp]
theorem before_le_before {a b : α} : before a ≤ before b ↔ (compare a b).isLE := by
  rw [← compare_before_before]
  exact Iff.rfl

@[simp]
theorem before_lt_before {a b : α} : before a < before b ↔ compare a b = .lt := by
  rw [← compare_before_before]
  exact Iff.rfl

@[simp]
theorem after_le_after {a b : α} : after a ≤ after b ↔ (compare a b).isLE := by
  rw [← compare_after_after]
  exact Iff.rfl

@[simp]
theorem after_lt_after {a b : α} : after a < after b ↔ compare a b = .lt := by
  rw [← compare_after_after]
  exact Iff.rfl

@[simp]
theorem before_le_after {a b : α} : before a ≤ after b ↔ (compare a b).isLE := by
  change ((compare a b).then .lt).isLE ↔ _
  cases compare a b <;> simp

@[simp]
theorem before_lt_after {a b : α} : before a < after b ↔ (compare a b).isLE := by
  change (compare a b).then .lt = .lt ↔ _
  cases compare a b <;> simp

@[simp]
theorem after_le_before {a b : α} : after a ≤ before b ↔ compare a b = .lt := by
  change ((compare a b).then .gt).isLE ↔ _
  cases compare a b <;> simp

@[simp]
theorem bottom_le (c : Cut α) : bottom ≤ c := by
  cases c <;> exact rfl

@[simp]
theorem le_top (c : Cut α) : c ≤ top := by
  cases c <;> exact rfl

@[simp]
theorem not_top_le_bottom : ¬ (top : Cut α) ≤ bottom := fun h => nomatch h

@[simp]
theorem not_before_le_bottom (a : α) : ¬ before a ≤ bottom := fun h => nomatch h

@[simp]
theorem not_after_le_bottom (a : α) : ¬ after a ≤ bottom := fun h => nomatch h

@[simp]
theorem not_top_le_before (a : α) : ¬ top ≤ before a := fun h => nomatch h

@[simp]
theorem not_top_le_after (a : α) : ¬ top ≤ after a := fun h => nomatch h

@[simp]
theorem before_lt_top (a : α) : before a < top := rfl

theorem lt_after_iff (c : Cut α) (a : α) : c < after a ↔ c ≤ before a := by
  cases c with
  | bottom => exact iff_of_true rfl (bottom_le _)
  | before b => rw [before_lt_after, before_le_before]
  | after b => rw [after_lt_after, after_le_before]
  | top => exact iff_of_false (fun h => nomatch h) (not_top_le_before a)

variable [Std.TransOrd α]

instance : Std.TransOrd (Cut α) :=
  inferInstanceAs (Std.TransCmp (compareLex (compareOn zone) (compareLex (compareOn value?) (compareOn side))))

instance : Std.LawfulOrderOrd (Cut α) := Std.instLawfulOrderOrd_ofOrd _

instance : Std.IsLinearPreorder (Cut α) := Std.IsLinearPreorder.of_ord

instance [Std.LawfulEqOrd α] : Std.LawfulEqOrd (Cut α) where
  compare_self := Std.ReflCmp.compare_self
  eq_of_compare h := by
    obtain ⟨hzone, hrest⟩ := compareLex_eq_eq.mp h
    obtain ⟨hvalue, hside⟩ := compareLex_eq_eq.mp hrest
    exact ext (Std.LawfulEqOrd.eq_of_compare hzone) (Std.LawfulEqOrd.eq_of_compare hvalue)
      (Std.LawfulEqOrd.eq_of_compare hside)

end Cut

namespace Endpoint

variable {α : Type}

/-- The cut at which a range with this lower end starts. -/
def start : Endpoint α → Cut α
  | unbounded => .bottom
  | included a => .before a
  | excluded a => .after a

/-- The cut at which a range with this upper end stops. -/
def stop : Endpoint α → Cut α
  | unbounded => .top
  | included a => .after a
  | excluded a => .before a

theorem start_injective {e f : Endpoint α} (h : e.start = f.start) : e = f := by
  cases e <;> cases f <;> simp_all [start]

theorem stop_injective {e f : Endpoint α} (h : e.stop = f.stop) : e = f := by
  cases e <;> cases f <;> simp_all [stop]

variable [Ord α]

theorem compareLower_eq (e f : Endpoint α) : e.compareLower f = compare e.start f.start := by
  cases e <;> cases f <;>
    simp [compareLower, start, Cut.compare_before_before, Cut.compare_after_after, Cut.compare_before_after,
      Cut.compare_after_before] <;> rfl

theorem compareUpper_eq (e f : Endpoint α) : e.compareUpper f = compare e.stop f.stop := by
  cases e <;> cases f <;>
    simp [compareUpper, stop, Cut.compare_before_before, Cut.compare_after_after, Cut.compare_before_after,
      Cut.compare_after_before] <;> rfl

theorem admitsBelow_iff (upper : Endpoint α) (x : α) : upper.admitsBelow x ↔ .before x < upper.stop := by
  cases upper <;> simp [admitsBelow, stop]

theorem compareLower_eq_lt_iff (e f : Endpoint α) : e.compareLower f = .lt ↔ e.start < f.start := by
  rw [compareLower_eq]
  exact Iff.rfl

theorem admitsAbove_iff [Std.OrientedOrd α] (lower : Endpoint α) (x : α) :
    lower.admitsAbove x ↔ lower.start ≤ .before x := by
  cases lower <;> simp [admitsAbove, start, Std.OrientedCmp.isGE_eq_isLE, Std.OrientedCmp.gt_iff_lt]

/-- A range that stops short of a value meets those behind it that hold the value. -/
theorem connects_excluded_left (a : α) (lower : Endpoint α) : (excluded a).connects lower = lower.admitsAbove a := by
  cases lower <;> rfl

theorem connects_excluded_right [Std.OrientedOrd α] (upper : Endpoint α) (a : α) :
    upper.connects (excluded a) = upper.admitsBelow a := by
  cases upper with
  | unbounded => rfl
  | included u => exact Std.OrientedCmp.isGE_eq_isLE
  | excluded u =>
    rw [connects, admitsBelow, Std.OrientedOrd.eq_swap (a := u)]
    cases compare a u <;> rfl

variable [Std.TransOrd α]

theorem compareUpper_eq_gt_iff (e f : Endpoint α) : e.compareUpper f = .gt ↔ f.stop < e.stop := by
  rw [compareUpper_eq, Std.OrientedCmp.gt_iff_lt]
  exact Iff.rfl

theorem connects_iff (upper lower : Endpoint α) : upper.connects lower ↔ lower.start ≤ upper.stop := by
  cases upper <;> cases lower <;>
    simp [connects, start, stop, Std.OrientedCmp.isGE_eq_isLE, Std.OrientedCmp.gt_iff_lt]

end Endpoint

end ClusteringKeys
